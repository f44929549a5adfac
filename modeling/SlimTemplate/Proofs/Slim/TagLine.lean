import SlimTemplate.Proofs.Slim.Attributes
import SlimTemplate.Proofs.Slim.Pieces

/-!
Tag lines as they are written by hand: a name, shortcuts in any order, quoted attributes and a text,
with single spaces between them. Main statement: such a line is read as exactly the tag that was
written, whatever the values of its attributes hold.
-/

namespace SlimTemplate.Slim

inductive Shortcut where
  | ofClass (name : String)
  | ofId (name : String)

namespace Shortcut

def name : Shortcut → String
  | ofClass name | ofId name => name

def mark : Shortcut → Char
  | ofClass _ => '.'
  | ofId _ => '#'

def text (shortcut : Shortcut) : List Char :=
  shortcut.mark :: shortcut.name.toList

def marked (mark : Char) (shortcuts : List Shortcut) : List String :=
  (shortcuts.filter (·.mark == mark)).map name

end Shortcut

def assignmentText (key value : String) : List Char :=
  key.toList ++ '=' :: '"' :: (value.toList ++ ['"'])

/-- A tag as it is written: values are without double quotes, and all blanks are single spaces. -/
structure WrittenTag where
  name : String
  shortcuts : List Shortcut
  attributes : Attributes
  inline : String
  isTagName : IsTagName name.toList
  notDoctype : ¬ "doctype".toList <+: name.toList
  shortcutNames : ∀ shortcut ∈ shortcuts, IsKey shortcut.name.toList
  hasKeys : HasKeys attributes
  distinct : attributes.keys.Nodup
  unquoted : ∀ pair ∈ attributes, '"' ∉ pair.2.toList
  valuesSpaced : ∀ pair ∈ attributes, Text.SingleSpaced pair.2.toList
  inlineSpaced : Text.SingleSpaced inline.toList
  inlineTrimmed : Text.Trimmed inline.toList
  noAssignment : '=' ∉ inline.toList

namespace WrittenTag

def head (tag : WrittenTag) : List Char :=
  tag.name.toList ++ tag.shortcuts.flatMap Shortcut.text

def line (tag : WrittenTag) (indentation : List Char) : List Char :=
  indentation ++ tag.head ++
    tag.attributes.flatMap (fun pair => ' ' :: assignmentText pair.1 pair.2) ++
    ' ' :: tag.inline.toList

/-- The attributes of the shortcuts: all classes, and the first id. -/
def shortcutAttributes (tag : WrittenTag) : Attributes :=
  let classes := Shortcut.marked '.' tag.shortcuts
  (if classes = [] then [] else [("class", " ".intercalate classes)]) ++
    ((Shortcut.marked '#' tag.shortcuts).take 1).map fun id => ("id", id)

/-- The value of a key: an explicit value replaces that of a shortcut, except that an explicit class
follows the classes of the shortcuts. -/
def value? (tag : WrittenTag) (key : String) : Option String :=
  match tag.attributes.get? key, tag.shortcutAttributes.get? key with
  | some value, some given => some (if key = "class" then given ++ " " ++ value else value)
  | some value, none => some value
  | none, given => given

end WrittenTag

/-! Heads. -/

theorem not_isNameChar_mark (shortcut : Shortcut) : isNameChar shortcut.mark = false := by
  cases shortcut <;> rfl

theorem not_isAlphanum_mark (shortcut : Shortcut) : shortcut.mark.isAlphanum = false := by
  cases shortcut <;> rfl

theorem mark_signs (shortcut : Shortcut) :
    Text.isBlank shortcut.mark = false ∧ shortcut.mark ≠ '=' := by
  cases shortcut <;> exact ⟨rfl, by simp [Shortcut.mark]⟩

/-- A run of name characters before the shortcuts ends where they start. -/
theorem takeWhile_before_shortcuts {p : Char → Bool} {run : List Char}
    (hrun : ∀ c ∈ run, p c = true)
    (hmark : ∀ shortcut : Shortcut, p shortcut.mark = false) (shortcuts : List Shortcut) :
    (run ++ shortcuts.flatMap Shortcut.text).takeWhile p = run ∧
      (run ++ shortcuts.flatMap Shortcut.text).dropWhile p = shortcuts.flatMap Shortcut.text := by
  rw [List.takeWhile_append_of_pos hrun, List.dropWhile_append_of_pos hrun]
  cases shortcuts with
  | nil => simp
  | cons shortcut rest => simp [Shortcut.text, hmark shortcut]

theorem runsAfter_append {mark : Char} {run : List Char} (hrun : ∀ c ∈ run, isNameChar c = true)
    (hmark : isNameChar mark = false) (rest : List Char) :
    runsAfter mark (run ++ rest) = runsAfter mark rest := by
  induction run with
  | nil => rfl
  | cons c run ih =>
      obtain ⟨hc, hrun⟩ := List.forall_mem_cons.mp hrun
      have hne : (c == mark) = false := by
        refine beq_false_of_ne ?_
        rintro rfl
        rw [hc] at hmark
        cases hmark
      simp [runsAfter, hne, ih hrun]

theorem runsAfter_shortcuts {mark : Char} (hmark : isNameChar mark = false)
    {shortcuts : List Shortcut}
    (hnames : ∀ shortcut ∈ shortcuts, IsKey shortcut.name.toList) :
    runsAfter mark (shortcuts.flatMap Shortcut.text) =
      (Shortcut.marked mark shortcuts).map String.toList := by
  induction shortcuts with
  | nil => rfl
  | cons shortcut rest ih =>
      obtain ⟨⟨hne, hname⟩, hrest⟩ := List.forall_mem_cons.mp hnames
      have hrun := (takeWhile_before_shortcuts hname not_isNameChar_mark rest).1
      have hafter := runsAfter_append hname hmark (rest.flatMap Shortcut.text)
      rw [List.flatMap_cons, Shortcut.text, List.cons_append, runsAfter]
      simp only [hrun, hafter, ih hrest]
      by_cases hsame : shortcut.mark = mark
      · simp [Shortcut.marked, hsame, hne]
      · simp [Shortcut.marked, hsame]

namespace WrittenTag

variable (tag : WrittenTag)

theorem head_letter : ∃ c rest, tag.head = c :: rest ∧ c.isAlpha = true := by
  have hletter := tag.isTagName.1
  cases hname : tag.name.toList with
  | nil => simp [hname] at hletter
  | cons c cs => exact ⟨c, _, by rw [head, hname, List.cons_append], by simpa [hname] using hletter⟩

theorem splitHead_head : splitHead tag.head = (tag.name, tag.shortcutAttributes) := by
  have hfirst : tag.head.head?.any Char.isAlpha = true := by
    obtain ⟨c, rest, hhead, hletter⟩ := tag.head_letter
    simp [hhead, hletter]
  obtain ⟨htake, hdrop⟩ :=
    takeWhile_before_shortcuts tag.isTagName.2 not_isAlphanum_mark tag.shortcuts
  have hclasses := runsAfter_shortcuts (by decide : isNameChar '.' = false) tag.shortcutNames
  have hids := runsAfter_shortcuts (by decide : isNameChar '#' = false) tag.shortcutNames
  rw [splitHead, if_pos hfirst]
  simp only [head, htake, hdrop, String.ofList_toList, Slim.shortcutAttributes, hclasses, hids,
    shortcutAttributes]
  simp [List.map_take, Function.comp_def]

end WrittenTag

/-! Attributes and inline text. -/

theorem readAssignment?_assignmentText {key value : String} (hkey : IsKey key.toList)
    (hvalue : '"' ∉ value.toList) (after : List Char) :
    readAssignment? (assignmentText key value ++ after) =
      some (⟨key.toList, value.toList, true, assignmentText key value⟩, after) := by
  obtain ⟨hne, hname⟩ := hkey
  have hequals : isNameChar '=' = false := by decide
  have htext : assignmentText key value ++ after =
      key.toList ++ '=' :: '"' :: (value.toList ++ '"' :: after) := by
    simp [assignmentText]
  have htake : (assignmentText key value ++ after).takeWhile isNameChar = key.toList := by
    rw [htext, List.takeWhile_append_of_pos hname, List.takeWhile_cons_of_neg (by simp [hequals]),
      List.append_nil]
  have hdrop : (assignmentText key value ++ after).dropWhile isNameChar =
      '=' :: '"' :: (value.toList ++ '"' :: after) := by
    rw [htext, List.dropWhile_append_of_pos hname, List.dropWhile_cons_of_neg (by simp [hequals])]
  have hunquoted : ∀ c ∈ value.toList, (c != '"') = true := fun c hc =>
    bne_iff_ne.mpr fun heq => hvalue (heq ▸ hc)
  have hread : readValue? ('"' :: (value.toList ++ '"' :: after)) =
      some (value.toList, true, after) := by
    simp [readValue?, isQuote, List.takeWhile_append_of_pos hunquoted,
      List.dropWhile_append_of_pos hunquoted]
  have hblank : Text.isBlank '=' = false ∧ Text.isBlank '"' = false := by decide
  simp [readAssignment?, htake, hdrop, hne, Text.trimStart, hblank.1, hblank.2, hread]

namespace WrittenTag

variable (tag : WrittenTag)

/-- What follows the head on a line, each part with a space before it. -/
def parts : List (List Char) :=
  tag.attributes.map (fun pair => assignmentText pair.1 pair.2) ++
    if tag.inline.toList = [] then [] else [tag.inline.toList]

def content : List Char :=
  tag.head ++ tag.parts.flatMap (' ' :: ·)

theorem assignmentText_spaced {pair : String × String} (hpair : pair ∈ tag.attributes) :
    Text.SingleSpaced (assignmentText pair.1 pair.2) ∧
      Text.Trimmed (assignmentText pair.1 pair.2) := by
  obtain ⟨hne, hname⟩ := tag.hasKeys pair hpair
  have hkey : ∀ c ∈ pair.1.toList ++ ['=', '"'], Text.isBlank c = false := by
    intro c hc
    cases List.mem_append.mp hc with
    | inl hmem => exact isBlank_of_isNameChar (hname c hmem)
    | inr hmem =>
        simp only [List.mem_cons, List.not_mem_nil, or_false] at hmem
        rcases hmem with rfl | rfl <;> decide
  have hquote : ∀ c ∈ ['"'], Text.isBlank c = false := by simp [Text.isBlank]
  have htext : assignmentText pair.1 pair.2 =
      pair.1.toList ++ ['=', '"'] ++ (pair.2.toList ++ ['"']) := by
    simp [assignmentText]
  rw [htext]
  refine ⟨?_, fun c hc => ?_, fun c hc => ?_⟩
  · refine (Text.singleSpaced_of_notBlank hkey).append ((tag.valuesSpaced pair hpair).append
      (Text.singleSpaced_of_notBlank hquote) fun _ _ b hb _ => hquote b ?_)
      fun a ha _ _ hblank => ?_
    · exact List.mem_of_mem_head? hb
    · rw [hkey a (List.mem_of_getLast? ha)] at hblank
      cases hblank
  · rw [List.append_assoc, List.head?_append_of_ne_nil _ hne] at hc
    exact isBlank_of_isNameChar (hname c (List.mem_of_mem_head? hc))
  · rw [← List.append_assoc, List.getLast?_concat] at hc
    exact hquote c (by simpa using hc.symm)

theorem parts_spaced : ∀ part ∈ tag.parts,
    Text.SingleSpaced part ∧ Text.Trimmed part ∧ part ≠ [] := by
  intro part hpart
  cases List.mem_append.mp hpart with
  | inl hmem =>
      obtain ⟨pair, hpair, rfl⟩ := List.mem_map.mp hmem
      obtain ⟨hspaced, htrimmed⟩ := tag.assignmentText_spaced hpair
      exact ⟨hspaced, htrimmed, by simp [assignmentText]⟩
  | inr hmem =>
      split at hmem
      · cases hmem
      · rename_i hne
        rw [List.mem_singleton.mp hmem]
        exact ⟨tag.inlineSpaced, tag.inlineTrimmed, hne⟩

end WrittenTag

/-- Parts with single spaces between them. -/
theorem spaced_flatMap {first : List Char} {rest : List (List Char)}
    (h : ∀ part ∈ first :: rest, Text.SingleSpaced part ∧ Text.Trimmed part ∧ part ≠ []) :
    Text.SingleSpaced (first ++ rest.flatMap (' ' :: ·)) ∧
      Text.Trimmed (first ++ rest.flatMap (' ' :: ·)) := by
  induction rest generalizing first with
  | nil =>
      obtain ⟨hspaced, htrimmed, -⟩ := h first List.mem_cons_self
      simpa using ⟨hspaced, htrimmed⟩
  | cons next rest ih =>
      obtain ⟨⟨hspaced, htrimmed, hne⟩, hrest⟩ := List.forall_mem_cons.mp h
      obtain ⟨hspaced', htrimmed'⟩ := ih hrest
      have hnext : next ≠ [] := (hrest next List.mem_cons_self).2.2
      rw [List.flatMap_cons, List.cons_append]
      exact ⟨hspaced.spaced hspaced' htrimmed htrimmed',
        htrimmed.spaced htrimmed' hne (by simp [hnext])⟩

namespace WrittenTag

variable (tag : WrittenTag)

theorem mem_head {c : Char} (h : c ∈ tag.head) : Text.isBlank c = false ∧ c ≠ '=' := by
  have hname : ∀ c, isNameChar c = true → Text.isBlank c = false ∧ c ≠ '=' := by
    intro c hc
    refine ⟨isBlank_of_isNameChar hc, ?_⟩
    rintro rfl
    cases hc
  cases List.mem_append.mp h with
  | inl hmem => exact hname c (isNameChar_of_isAlphanum (tag.isTagName.2 c hmem))
  | inr hmem =>
      obtain ⟨shortcut, hshortcut, hc⟩ := List.mem_flatMap.mp hmem
      cases List.mem_cons.mp hc with
      | inl hmark =>
          rw [hmark]
          exact mark_signs shortcut
      | inr hin => exact hname c ((tag.shortcutNames shortcut hshortcut).2 c hin)

theorem head_ne_nil : tag.head ≠ [] := by
  obtain ⟨c, rest, hhead, -⟩ := tag.head_letter
  simp [hhead]

theorem content_trimmed : Text.Trimmed tag.content := by
  have hhead : ∀ c ∈ tag.head, Text.isBlank c = false := fun c hc => (tag.mem_head hc).1
  refine (spaced_flatMap (List.forall_mem_cons.mpr ⟨?_, tag.parts_spaced⟩)).2
  exact ⟨Text.singleSpaced_of_notBlank hhead, Text.trimmed_of_notBlank hhead, tag.head_ne_nil⟩

/-- Trimming a line gives its content: only a space without text after it is lost. -/
theorem trim_line {indentation : List Char} (h : ∀ c ∈ indentation, Text.isBlank c = true) :
    Text.trim (tag.line indentation) = tag.content := by
  by_cases hinline : tag.inline.toList = []
  · have hline : tag.line indentation = indentation ++ tag.content ++ [' '] := by
      simp [line, content, parts, hinline, List.flatMap_map]
    rw [hline, tag.content_trimmed.trim_eq h (by simp [Text.isBlank])]
  · have hline : tag.line indentation = indentation ++ tag.content ++ [] := by
      simp [line, content, parts, hinline, List.flatMap_map]
    rw [hline, tag.content_trimmed.trim_eq h (by simp)]

/-- The first word of the content is the head, and the rest is left as it is. -/
theorem words_content : (Text.words tag.content).headD [] = tag.head ∧
    afterHead tag.content = (tag.parts.flatMap (' ' :: ·)).drop 1 := by
  have hhead : ∀ c ∈ tag.head, Text.isBlank c = false := fun c hc => (tag.mem_head hc).1
  rw [afterHead, content]
  cases hparts : tag.parts with
  | nil =>
      rw [List.flatMap_nil, List.append_nil, Text.words_of_notBlank hhead tag.head_ne_nil]
      exact ⟨rfl, rfl⟩
  | cons first rest =>
      have hspaced := spaced_flatMap (hparts ▸ tag.parts_spaced)
      rw [List.flatMap_cons, List.cons_append, Text.words_append_space hhead tag.head_ne_nil]
      refine ⟨rfl, ?_⟩
      rw [List.drop_one, List.tail_cons, Text.intercalate_words hspaced.1 hspaced.2]
      rfl

end WrittenTag

def assignmentOf (pair : String × String) : Assignment :=
  ⟨pair.1.toList, pair.2.toList, true, assignmentText pair.1 pair.2⟩

theorem pieces_attributes {pairs : Attributes} (hkeys : HasKeys pairs)
    (hvalues : ∀ pair ∈ pairs, '"' ∉ pair.2.toList) (tail : List Char) :
    pieces (pairs.flatMap (fun pair => ' ' :: assignmentText pair.1 pair.2) ++ tail) =
      pairs.flatMap (fun pair => [.char ' ', .assignment (assignmentOf pair)]) ++ pieces tail := by
  induction pairs with
  | nil => rfl
  | cons pair rest ih =>
      obtain ⟨hkey, hkeys⟩ := List.forall_mem_cons.mp hkeys
      obtain ⟨hvalue, hvalues⟩ := List.forall_mem_cons.mp hvalues
      rw [List.flatMap_cons, List.append_assoc, List.cons_append,
        pieces_cons_of_none (readAssignment?_space _),
        pieces_of_some (readAssignment?_assignmentText hkey hvalue _), ih hkeys hvalues]
      rfl

theorem filterMap_attributes (pairs : Attributes) :
    (pairs.flatMap fun pair => [Piece.char ' ', .assignment (assignmentOf pair)]).filterMap
        Piece.assignment? = pairs.map assignmentOf ∧
      (pairs.flatMap fun pair => [Piece.char ' ', .assignment (assignmentOf pair)]).filterMap
        Piece.char? = pairs.map fun _ => ' ' := by
  induction pairs with
  | nil => exact ⟨rfl, rfl⟩
  | cons pair rest ih => exact ⟨congrArg (assignmentOf pair :: ·) ih.1, congrArg (' ' :: ·) ih.2⟩

/-- A space at the start of a text matters neither for its assignments nor for what is left. -/
theorem pieces_drop_space {cs : List Char} (h : cs.head?.all (· == ' ') = true) :
    assignments (pieces (cs.drop 1)) = assignments (pieces cs) ∧
      leftover (pieces (cs.drop 1)) = leftover (pieces cs) := by
  cases cs with
  | nil => exact ⟨rfl, rfl⟩
  | cons c cs =>
      obtain rfl : c = ' ' := by simpa using h
      rw [pieces_cons_of_none (readAssignment?_space cs)]
      refine ⟨rfl, ?_⟩
      change _ = Text.trim (' ' :: (pieces cs).filterMap Piece.char?)
      rw [Text.trim, Text.trimStart, List.dropWhile_cons_of_pos Text.isBlank_space]
      rfl

namespace WrittenTag

variable (tag : WrittenTag)

theorem pieces_parts :
    assignments (pieces (tag.parts.flatMap (' ' :: ·))) = tag.attributes.map assignmentOf ∧
      leftover (pieces (tag.parts.flatMap (' ' :: ·))) = tag.inline.toList := by
  have hspaces : ∀ c ∈ tag.attributes.map (fun _ => ' '), Text.isBlank c = true := by
    intro c hc
    obtain ⟨_, -, rfl⟩ := List.mem_map.mp hc
    exact Text.isBlank_space
  have htext : '=' ∉ ' ' :: tag.inline.toList := by simpa using tag.noAssignment
  rw [parts, List.flatMap_append, List.flatMap_map, pieces_attributes tag.hasKeys tag.unquoted]
  split
  · rename_i hempty
    rw [List.flatMap_nil, pieces_of_notMem List.not_mem_nil, assignments, leftover]
    simp only [List.filterMap_append, filterMap_attributes, filterMap_chars, hempty,
      List.append_nil, true_and]
    have htrim := tag.inlineTrimmed.trim_eq hspaces (List.forall_mem_nil _)
    rwa [hempty, List.append_nil, List.append_nil] at htrim
  · rw [List.flatMap_singleton, pieces_of_notMem htext, assignments, leftover]
    simp only [List.filterMap_append, filterMap_attributes, filterMap_chars, List.append_nil,
      true_and]
    have hblank : ∀ c ∈ tag.attributes.map (fun _ => ' ') ++ [' '], Text.isBlank c = true := by
      intro c hc
      cases List.mem_append.mp hc with
      | inl hmem => exact hspaces c hmem
      | inr hmem => exact List.mem_singleton.mp hmem ▸ Text.isBlank_space
    simpa using tag.inlineTrimmed.trim_eq hblank (List.forall_mem_nil _)

theorem splitOutput?_content : splitOutput? tag.content = none := by
  have hhead : tag.head.contains '=' = false := by
    rw [List.contains_eq_mem, decide_eq_false_iff_not]
    exact fun hmem => (tag.mem_head hmem).2 rfl
  rw [splitOutput?]
  simp only [tag.words_content.1, hhead, Bool.false_and, Bool.false_eq_true, ite_false]

theorem explicitAttributes_content :
    explicitAttributes (pieces (afterHead tag.content)) = tag.attributes ∧
      leftover (pieces (afterHead tag.content)) = tag.inline.toList ∧
      (assignments (pieces (afterHead tag.content))).filterMap Assignment.suspicion? = [] := by
  have hspace : (tag.parts.flatMap (' ' :: ·)).head?.all (· == ' ') = true := by
    cases tag.parts <;> rfl
  obtain ⟨hassignments, hleftover⟩ := pieces_drop_space hspace
  rw [tag.words_content.2, explicitAttributes, hassignments, hleftover, tag.pieces_parts.1,
    tag.pieces_parts.2, List.map_map]
  refine ⟨?_, rfl, ?_⟩
  · have hpairs : (fun a : Assignment => (String.ofList a.key, String.ofList a.value)) ∘
        assignmentOf = id := by
      funext pair
      simp [assignmentOf]
    rw [hpairs, List.map_id]
    exact Attributes.ofPairs_of_nodup tag.distinct
  · rw [List.filterMap_map, List.filterMap_eq_nil_iff]
    intro pair _
    rfl

def inlineNodes (depth : Int) (number : Nat) (raw : String) : List Inline :=
  if tag.inline = "" then [] else [⟨.text, tag.inline, depth, number, raw⟩]

theorem readInline_inline (depth : Int) (number : Nat) (raw : String) :
    readInline tag.inline.toList depth number raw = tag.inlineNodes depth number raw := by
  rw [inlineNodes, readInline.eq_def]
  split
  · rename_i hempty
    rw [if_pos (String.toList_eq_nil_iff.mp hempty)]
  · rename_i code hequals
    exact absurd (hequals ▸ List.mem_cons_self) tag.noAssignment
  · rename_i hne _
    rw [if_neg fun heq => hne (by rw [heq]; rfl), String.ofList_toList]

theorem readTag_content (depth : Int) (number : Nat) (raw : String) :
    readTag tag.content depth number raw =
      (⟨.tag tag.name (tag.shortcutAttributes.merge tag.attributes)
        (tag.inlineNodes depth number raw), depth, number, raw⟩, []) := by
  obtain ⟨hattributes, hleftover, hsuspicions⟩ := tag.explicitAttributes_content
  rw [readTag, tag.splitOutput?_content]
  simp only [tag.words_content.1, tag.splitHead_head, hattributes, hleftover, hsuspicions,
    tag.readInline_inline]

end WrittenTag

/-- A line that starts with a letter is a tag, unless it is a doctype. -/
theorem readLine_of_letter {cs content : List Char} {c : Char} (htrim : Text.trim cs = c :: content)
    (hletter : c.isAlpha = true) (hdoctype : ¬ "doctype".toList <+: c :: content) (number : Nat) :
    readLine number cs =
      (some (readTag (c :: content) (cs.takeWhile Text.isBlank).length number (.ofList cs)).1,
        (if (cs.takeWhile Text.isBlank).contains '\t' then [.tabInIndentation] else []) ++
          (readTag (c :: content) (cs.takeWhile Text.isBlank).length number (.ofList cs)).2) := by
  have hne : ∀ d : Char, d.isAlpha = false → c ≠ d := by
    rintro d hd rfl
    rw [hletter] at hd
    cases hd
  have hplain : ("doctype".toList.isPrefixOf (c :: content) ||
      "!!!".toList.isPrefixOf (c :: content)) = false := by
    rw [Bool.or_eq_false_iff]
    refine ⟨?_, ?_⟩
    · rwa [← Bool.not_eq_true, List.isPrefixOf_iff_prefix]
    · simp [List.isPrefixOf, (hne '!' (by decide)).symm]
  rw [readLine, htrim]
  simp only [List.isEmpty_cons, Bool.false_eq_true, ite_false]
  split
  · exact absurd (List.cons.inj ‹_›).1 (hne '/' (by decide))
  · exact absurd (List.cons.inj ‹_›).1 (hne '=' (by decide))
  · exact absurd (List.cons.inj ‹_›).1 (hne '-' (by decide))
  · exact absurd (List.cons.inj ‹_›).1 (hne '|' (by decide))
  · rw [if_neg (Bool.eq_false_iff.mp hplain)]

namespace WrittenTag

variable (tag : WrittenTag)

/-- The name is followed by a mark, or by what follows the head. -/
theorem head_takeWhile {after : List Char} (h : ∀ c ∈ after.head?, c.isAlphanum = false) :
    (tag.head ++ after).takeWhile Char.isAlphanum = tag.name.toList := by
  rw [head, List.append_assoc, List.takeWhile_append_of_pos tag.isTagName.2]
  cases tag.shortcuts with
  | nil =>
      cases after with
      | nil => simp
      | cons c after => simp [h c rfl]
  | cons shortcut rest => simp [Shortcut.text, not_isAlphanum_mark shortcut]

theorem not_doctype_head {after : List Char} (h : ∀ c ∈ after.head?, c.isAlphanum = false) :
    ¬ "doctype".toList <+: tag.head ++ after := by
  rintro ⟨rest, hrest⟩
  refine tag.notDoctype ?_
  rw [← tag.head_takeWhile h, ← hrest,
    List.takeWhile_append_of_pos (List.all_eq_true.mp (by decide))]
  exact List.prefix_append _ _

theorem not_doctype_content : ¬ "doctype".toList <+: tag.content := by
  apply tag.not_doctype_head
  cases tag.parts with
  | nil => simp
  | cons part parts =>
      intro c hc
      obtain rfl : ' ' = c := by simpa using hc
      decide

theorem takeWhile_line {indentation : List Char} (h : ∀ c ∈ indentation, Text.isBlank c = true) :
    (tag.line indentation).takeWhile Text.isBlank = indentation := by
  obtain ⟨c, rest, hhead, -⟩ := tag.head_letter
  have hc : Text.isBlank c = false := (tag.mem_head (hhead ▸ List.mem_cons_self)).1
  rw [line, hhead, List.append_assoc, List.append_assoc, List.cons_append,
    Text.takeWhile_blanks h hc]

theorem get?_merge (key : String) :
    (tag.shortcutAttributes.merge tag.attributes).get? key = tag.value? key := by
  rw [Attributes.get?_merge tag.distinct, value?]
  cases tag.attributes.get? key with
  | none => rfl
  | some value =>
      dsimp only
      rw [Attributes.mergedValue]
      by_cases hclass : key = "class"
      · rw [if_pos hclass]
        cases tag.shortcutAttributes.get? key <;> simp [hclass]
      · rw [if_neg hclass]
        cases tag.shortcutAttributes.get? key <;> simp [hclass]

end WrittenTag

/-- A written tag is read as it was meant: its name, its depth, its text, and for every key the
value it was given, the keys of the shortcuts first. -/
theorem readLine_writtenTag (tag : WrittenTag) (reader : Reader) {indentation : List Char}
    (hblank : ∀ c ∈ indentation, Text.isBlank c = true) :
    ∃ attributes : Attributes,
      reader.readLine (.ofList (tag.line indentation)) =
        (some ⟨.tag tag.name attributes
            (tag.inlineNodes indentation.length reader.line (.ofList (tag.line indentation))),
          indentation.length, reader.line, .ofList (tag.line indentation)⟩,
          reader.note (if indentation.contains '\t' then [.tabInIndentation] else [])) ∧
      attributes.keys = tag.shortcutAttributes.keys ++
        tag.attributes.keys.filter (· ∉ tag.shortcutAttributes.keys) ∧
      ∀ key, attributes.get? key = tag.value? key := by
  refine ⟨tag.shortcutAttributes.merge tag.attributes, ?_,
    Attributes.keys_merge tag.distinct _, tag.get?_merge⟩
  obtain ⟨c, rest, hhead, hletter⟩ := tag.head_letter
  have hcontent : tag.content = c :: (rest ++ tag.parts.flatMap (' ' :: ·)) := by
    rw [WrittenTag.content, hhead, List.cons_append]
  have hline := readLine_of_letter ((tag.trim_line hblank).trans hcontent) hletter
    (hcontent ▸ tag.not_doctype_content) reader.line
  rw [tag.takeWhile_line hblank, ← hcontent, tag.readTag_content] at hline
  rw [Reader.readLine, String.toList_ofList, hline, List.append_nil]

/-- A link whose values look like shortcuts, attributes and text. -/
def writtenLink : WrittenTag where
  name := "a"
  shortcuts := [.ofClass "btn", .ofId "go", .ofClass "big"]
  attributes := [("href", " x=.c #d 'e' "), ("class", "wide"), ("id", "stop")]
  inline := "Go \"on\" .now"
  isTagName := ⟨by decide, List.all_eq_true.mp (by decide)⟩
  notDoctype := by decide
  shortcutNames := by decide
  hasKeys := by simp only [HasKeys]; decide
  distinct := by decide
  unquoted := by decide
  valuesSpaced := by decide
  inlineSpaced := by decide
  inlineTrimmed := by decide
  noAssignment := by decide

theorem readLine_writtenTag_writtenLink :
    let raw := "\t a.btn#go.big href=\" x=.c #d 'e' \" class=\"wide\" id=\"stop\" Go \"on\" .now"
    (∀ c ∈ ['\t', ' '], Text.isBlank c = true) ∧ ∃ attributes : Attributes,
      Reader.readLine ⟨4, []⟩ raw =
        (some ⟨.tag "a" attributes [⟨.text, "Go \"on\" .now", 2, 4, raw⟩], 2, 4, raw⟩,
          ⟨4, [⟨4, .tabInIndentation⟩]⟩) ∧
      attributes.keys = ["class", "id", "href"] ∧
      attributes.get? "class" = some "btn big wide" ∧ attributes.get? "id" = some "stop" ∧
      attributes.get? "href" = some " x=.c #d 'e' " := by
  intro raw
  have hblank : ∀ c ∈ ['\t', ' '], Text.isBlank c = true := List.all_eq_true.mp (by decide)
  have hraw : .ofList (writtenLink.line ['\t', ' ']) = raw := by decide
  obtain ⟨attributes, hread, hkeys, hvalues⟩ := readLine_writtenTag writtenLink ⟨4, []⟩ hblank
  rw [hraw] at hread
  refine ⟨hblank, attributes, hread, hkeys.trans (by decide), ?_, ?_, ?_⟩
  · exact (hvalues "class").trans (by decide)
  · exact (hvalues "id").trans (by decide)
  · exact (hvalues "href").trans (by decide)

end SlimTemplate.Slim
