import SlimTemplate.Proofs.Slim.TagLine

/-!
Tags filled by code. The sign before the code can follow the head at once or after a space. Main
statement: in the first spelling every code is read as it is written; in the second those codes are
whose blanks are single spaces and that have nothing in them which looks like an attribute.
-/

namespace SlimTemplate.Slim

structure TagHead where
  name : String
  shortcuts : List Shortcut
  isTagName : IsTagName name.toList
  notDoctype : ¬ "doctype".toList <+: name.toList
  shortcutNames : ∀ shortcut ∈ shortcuts, IsKey shortcut.name.toList

namespace TagHead

def alone (head : TagHead) : WrittenTag where
  name := head.name
  shortcuts := head.shortcuts
  attributes := []
  inline := ""
  isTagName := head.isTagName
  notDoctype := head.notDoctype
  shortcutNames := head.shortcutNames
  hasKeys := List.forall_mem_nil _
  distinct := List.nodup_nil
  unquoted := List.forall_mem_nil _
  valuesSpaced := List.forall_mem_nil _
  inlineSpaced := by decide
  inlineTrimmed := by decide
  noAssignment := List.not_mem_nil

def text (head : TagHead) : List Char :=
  head.alone.head

def outputContent (head : TagHead) (sign : List Char) (code : String) : List Char :=
  head.text ++ (sign ++ code.toList)

def outputLine (head : TagHead) (indentation sign : List Char) (code : String) : String :=
  .ofList (indentation ++ head.outputContent sign code)

/-- The tag with the attributes of its shortcuts and the value of the code in it. -/
def outputNode (head : TagHead) (code : String) (depth : Int) (number : Nat) (raw : String) :
    Node :=
  ⟨.tag head.name head.alone.shortcutAttributes [⟨.expression, code, depth, number, raw⟩],
    depth, number, raw⟩

/-- A line is read as the tag, with the code on it word for word. -/
def Shows (head : TagHead) (reader : Reader) (indentation sign : List Char) (code : String) :
    Prop :=
  (reader.readLine (head.outputLine indentation sign code)).1 =
    some (head.outputNode code indentation.length reader.line
      (head.outputLine indentation sign code))

variable (head : TagHead)

theorem readTag_attached {code : String} (hne : code ≠ "") (htrim : Text.Trimmed code.toList)
    (depth : Int) (number : Nat) (raw : String) :
    readTag (head.outputContent ['=', ' '] code) depth number raw =
      (head.outputNode code depth number raw, []) := by
  have hcontent : head.outputContent ['=', ' '] code =
      (head.text ++ ['=']) ++ ' ' :: code.toList := by
    simp [outputContent]
  have hword : ∀ c ∈ head.text ++ ['='], Text.isBlank c = false := by
    intro c hc
    cases List.mem_append.mp hc with
    | inl hmem => exact (head.alone.mem_head hmem).1
    | inr hmem => exact List.mem_singleton.mp hmem ▸ by decide
  have hhead : ∀ c ∈ head.text, (c != '=') = true := fun c hc =>
    bne_iff_ne.mpr (head.alone.mem_head hc).2
  have hspace : ∀ c ∈ [' '], Text.isBlank c = true := by simp [Text.isBlank_space]
  have hcode : Text.trim (' ' :: code.toList) = code.toList := by
    simpa using htrim.trim_eq hspace (List.forall_mem_nil _)
  have hsplit : splitOutput? (head.outputContent ['=', ' '] code) =
      some (head.text, code.toList) := by
    rw [splitOutput?, hcontent, Text.words_append_space hword (by simp), List.append_assoc,
      List.takeWhile_append_of_pos hhead, List.dropWhile_append_of_pos hhead]
    simp [hcode, hne]
  rw [readTag, hsplit]
  simp only [text, head.alone.splitHead_head, String.ofList_toList]
  rfl

end TagHead

theorem readInline_eq_expression_iff {cs : List Char} {code : String} {depth : Int} {number : Nat}
    {raw : String} :
    readInline cs depth number raw = [⟨.expression, code, depth, number, raw⟩] ↔
      cs = '=' :: ' ' :: code.toList := by
  constructor
  · intro h
    rw [readInline.eq_def] at h
    split at h
    · cases h
    · rename_i found
      simp only [List.cons.injEq, Inline.mk.injEq] at h
      rw [← h.1.2.1, String.toList_ofList]
    · cases h
  · rintro rfl
    rw [readInline, String.ofList_toList]

namespace TagHead

variable (head : TagHead)

theorem readTag_detached (code : String) (depth : Int) (number : Nat) (raw : String) :
    let ps := pieces ([' '].intercalate (Text.words ('=' :: ' ' :: code.toList)))
    readTag (head.outputContent [' ', '=', ' '] code) depth number raw =
      (⟨.tag head.name (head.alone.shortcutAttributes.merge (explicitAttributes ps))
        (readInline (leftover ps) depth number raw), depth, number, raw⟩,
        (assignments ps).filterMap Assignment.suspicion?) := by
  intro ps
  have hwords : Text.words (head.outputContent [' ', '=', ' '] code) =
      head.text :: Text.words ('=' :: ' ' :: code.toList) :=
    Text.words_append_space (fun c hc => (head.alone.mem_head hc).1) head.alone.head_ne_nil
  have hsplit : splitOutput? (head.outputContent [' ', '=', ' '] code) = none := by
    have hhead : '=' ∉ head.text := fun hmem => (head.alone.mem_head hmem).2 rfl
    rw [splitOutput?, hwords]
    simp [hhead]
  rw [readTag, hsplit, afterHead, hwords]
  simp only [List.headD_cons, text, head.alone.splitHead_head]
  rfl

end TagHead

theorem singleSpaced_sign_iff {code : List Char} (htrim : Text.Trimmed code) :
    Text.SingleSpaced ('=' :: ' ' :: code) ↔ Text.SingleSpaced code := by
  constructor
  · rintro ⟨hspaces, hapart⟩
    exact ⟨fun c hc => hspaces c (by simp [hc]), hapart.tail.tail⟩
  · intro h
    have hsign : ∀ c ∈ ['='], Text.isBlank c = false := by simp [Text.isBlank]
    exact (Text.singleSpaced_of_notBlank hsign).spaced h (Text.trimmed_of_notBlank hsign) htrim

theorem hasAssignment_sign_iff (code : List Char) :
    HasAssignment ('=' :: ' ' :: code) ↔ HasAssignment code := by
  have hsign : isNameChar '=' = false := by decide
  simp [hasAssignment_cons, readAssignment?_of_not_isNameChar hsign, readAssignment?_space]

namespace TagHead

variable (head : TagHead)

/-- Behind a space, code is kept as it is exactly if it is plain. -/
theorem readTag_detached_iff {code : String} (hne : code ≠ "") (htrim : Text.Trimmed code.toList)
    (depth : Int) (number : Nat) (raw : String) :
    (readTag (head.outputContent [' ', '=', ' '] code) depth number raw).1 =
        head.outputNode code depth number raw ↔
      Text.SingleSpaced code.toList ∧ ¬ HasAssignment code.toList := by
  have hcode : code.toList ≠ [] := String.toList_eq_nil_iff.not.mpr hne
  have hsign : ∀ c ∈ ['='], Text.isBlank c = false := by simp [Text.isBlank]
  have htrimmed : Text.Trimmed ('=' :: ' ' :: code.toList) :=
    (Text.trimmed_of_notBlank hsign).spaced htrim (by simp) hcode
  have hkept := leftover_eq_iff htrimmed
  rw [singleSpaced_sign_iff htrim, hasAssignment_sign_iff] at hkept
  rw [head.readTag_detached, outputNode]
  constructor
  · intro hnode
    simp only [Node.mk.injEq, Construct.tag.injEq] at hnode
    exact hkept.mp (readInline_eq_expression_iff.mp hnode.1.2.2)
  · intro hplain
    have hpieces : pieces ([' '].intercalate (Text.words ('=' :: ' ' :: code.toList))) =
        ('=' :: ' ' :: code.toList).map .char := by
      rw [Text.intercalate_words ((singleSpaced_sign_iff htrim).mpr hplain.1) htrimmed]
      exact pieces_of_not_hasAssignment ((hasAssignment_sign_iff _).not.mpr hplain.2)
    have hnone : explicitAttributes (pieces
        ([' '].intercalate (Text.words ('=' :: ' ' :: code.toList)))) = [] := by
      rw [explicitAttributes, hpieces, assignments, (filterMap_chars _).1]
      rfl
    dsimp only
    rw [hnone, readInline_eq_expression_iff.mpr (hkept.mpr hplain)]
    rfl

/-- A line that starts with a head is read as a tag at the depth of its indentation. -/
theorem readLine_outputLine (reader : Reader) {indentation sign : List Char} {mark : Char}
    {code : String} (hblank : ∀ c ∈ indentation, Text.isBlank c = true)
    (hmark : mark.isAlphanum = false) (hne : code ≠ "") (htrim : Text.Trimmed code.toList) :
    (reader.readLine (head.outputLine indentation (mark :: sign) code)).1 =
      some (readTag (head.outputContent (mark :: sign) code) indentation.length reader.line
        (head.outputLine indentation (mark :: sign) code)).1 := by
  obtain ⟨c, rest, hhead, hletter⟩ := head.alone.head_letter
  have hc : Text.isBlank c = false := (head.alone.mem_head (hhead ▸ List.mem_cons_self)).1
  have hcontent : head.outputContent (mark :: sign) code =
      c :: (rest ++ (mark :: sign ++ code.toList)) := by
    rw [outputContent, text, hhead, List.cons_append]
  have htrimmed : Text.Trimmed (head.outputContent (mark :: sign) code) := by
    refine ⟨fun d hd => ?_, fun d hd => htrim.stop d ?_⟩
    · rw [hcontent] at hd
      obtain rfl : c = d := by simpa using hd
      exact hc
    · have hcode : code.toList ≠ [] := String.toList_eq_nil_iff.not.mpr hne
      rwa [outputContent, ← List.append_assoc, List.getLast?_append_of_ne_nil _ hcode] at hd
  have hline : Text.trim (indentation ++ head.outputContent (mark :: sign) code) =
      c :: (rest ++ (mark :: sign ++ code.toList)) := by
    rw [← hcontent, ← List.append_nil (indentation ++ _)]
    exact htrimmed.trim_eq hblank (List.forall_mem_nil _)
  have hdoctype : ¬ "doctype".toList <+: c :: (rest ++ (mark :: sign ++ code.toList)) := by
    rw [← hcontent]
    apply head.alone.not_doctype_head
    intro d hd
    obtain rfl : mark = d := by simpa using hd
    exact hmark
  have hindentation : (indentation ++ head.outputContent (mark :: sign) code).takeWhile
      Text.isBlank = indentation := by
    rw [hcontent, Text.takeWhile_blanks hblank hc]
  have hread := readLine_of_letter hline hletter hdoctype reader.line
  rw [hindentation, ← hcontent] at hread
  rw [Reader.readLine, outputLine, String.toList_ofList, hread]

end TagHead

/-- Code behind a head and an equals sign is kept word for word. With a space before the sign it is
so exactly if its blanks are single spaces and nothing in it looks like an attribute. -/
theorem output_verbatim_iff (head : TagHead) (reader : Reader) {indentation : List Char}
    {code : String} (hblank : ∀ c ∈ indentation, Text.isBlank c = true) (hne : code ≠ "")
    (htrim : Text.Trimmed code.toList) :
    head.Shows reader indentation ['=', ' '] code ∧
      (head.Shows reader indentation [' ', '=', ' '] code ↔
        Text.SingleSpaced code.toList ∧ ¬ HasAssignment code.toList) := by
  constructor
  · rw [TagHead.Shows, head.readLine_outputLine reader hblank (by decide) hne htrim,
      head.readTag_attached hne htrim]
  · rw [TagHead.Shows, head.readLine_outputLine reader hblank (by decide) hne htrim,
      Option.some_inj]
    exact head.readTag_detached_iff hne htrim _ _ _

/-- A heading with two classes and an id. -/
def titleHead : TagHead where
  name := "h1"
  shortcuts := [.ofClass "top", .ofId "go", .ofClass "big"]
  isTagName := ⟨by decide, List.all_eq_true.mp (by decide)⟩
  notDoctype := by decide
  shortcutNames := by decide

/-- A call is kept in both spellings, a comparison for equality and a double space in one only. -/
theorem output_verbatim_iff_titleHead :
    let node (code raw : String) : Node :=
      ⟨.tag "h1" [("class", "top big"), ("id", "go")] [⟨.expression, code, 2, 4, raw⟩], 2, 4, raw⟩
    let reads (code raw : String) : Prop :=
      (Reader.readLine ⟨4, []⟩ raw).1 = some (node code raw)
    reads "t 'x', :y > 1" "  h1.top#go.big= t 'x', :y > 1" ∧
      reads "t 'x', :y > 1" "  h1.top#go.big = t 'x', :y > 1" ∧
      reads "a == b" "  h1.top#go.big= a == b" ∧
      ¬ reads "a == b" "  h1.top#go.big = a == b" ∧
      reads "a  b" "  h1.top#go.big= a  b" ∧
      ¬ reads "a  b" "  h1.top#go.big = a  b" := by
  intro node reads
  have hblank : ∀ c ∈ [' ', ' '], Text.isBlank c = true := List.all_eq_true.mp (by decide)
  obtain ⟨hcall, hcall'⟩ := output_verbatim_iff titleHead ⟨4, []⟩ hblank
    (by decide : "t 'x', :y > 1" ≠ "") (by decide)
  obtain ⟨hequal, hequal'⟩ := output_verbatim_iff titleHead ⟨4, []⟩ hblank
    (by decide : "a == b" ≠ "") (by decide)
  obtain ⟨hspaces, hspaces'⟩ := output_verbatim_iff titleHead ⟨4, []⟩ hblank
    (by decide : "a  b" ≠ "") (by decide)
  refine ⟨hcall, hcall'.mpr (by decide), hequal, ?_, hspaces, ?_⟩
  · exact fun hshows => absurd (hequal'.mp hshows) (by decide)
  · exact fun hshows => absurd (hspaces'.mp hshows) (by decide)

end SlimTemplate.Slim
