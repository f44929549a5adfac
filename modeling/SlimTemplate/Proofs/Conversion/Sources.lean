import SlimTemplate.Proofs.Conversion.Stages
import SlimTemplate.Proofs.Text.Utf8

/-!
A source is a list of lines. How its lines are ended, how many byte order marks stand in front of
them and whether the text is given or read from a file does not matter, since a document is read
from its lines alone.
-/

namespace SlimTemplate

open FileTree Files SlimTemplate.Action

namespace Text

theorem unifyBreaks_append {cs : List Char} (h : '\r' ∉ cs) (ds : List Char) :
    unifyBreaks (cs ++ ds) = cs ++ unifyBreaks ds := by
  induction cs with
  | nil => rfl
  | cons c cs ih =>
      obtain ⟨hc, hcs⟩ := not_or.mp (List.mem_cons.not.mp h)
      rw [List.cons_append, unifyBreaks, ih hcs]
      · rfl
      · intro _ hreturn
        exact absurd hreturn.symm hc
      · intro hreturn
        exact hc hreturn.symm

/-- Marks in front are no line ends, so they can be dropped before or after. -/
theorem unifyBreaks_dropWhile (cs : List Char) :
    unifyBreaks (cs.dropWhile (· == '\uFEFF')) = (unifyBreaks cs).dropWhile (· == '\uFEFF') := by
  fun_induction unifyBreaks cs with
  | case1 cs _ => simp [unifyBreaks]
  | case2 cs hnot _ => simp [unifyBreaks]
  | case3 c cs hpair hreturn ih =>
      by_cases hc : c = '\uFEFF'
      · simpa [hc] using ih
      · have hkeep : ∀ ds, (c :: ds).dropWhile (· == '\uFEFF') = c :: ds :=
          fun ds => List.dropWhile_cons_of_neg (by simpa using hc)
        rw [hkeep, hkeep, unifyBreaks]
        · exact hpair
        · exact hreturn
  | case4 => rfl

/-- A carriage return alone ends a line if no line feed follows. -/
theorem unifyBreaks_return {cs : List Char} (h : cs.head? ≠ some '\n') :
    unifyBreaks ('\r' :: cs) = '\n' :: unifyBreaks cs := by
  rw [unifyBreaks]
  intro rest hrest
  rw [hrest] at h
  exact h rfl

/-- Lines that are joined by line ends of one kind are joined by line feeds. -/
theorem unifyBreaks_join {separator : List Char} {lines : List (List Char)}
    (hlines : ∀ line ∈ lines, '\r' ∉ line ∧ '\n' ∉ line)
    (hseparator : separator ∈ [['\n'], ['\r', '\n'], ['\r']]) :
    unifyBreaks (separator.intercalate lines) = ['\n'].intercalate lines := by
  induction lines with
  | nil => rfl
  | cons line lines ih =>
      obtain ⟨⟨hreturn, hfeed⟩, hlines⟩ := List.forall_mem_cons.mp hlines
      have ih := ih hlines
      cases lines with
      | nil =>
          rw [List.intercalate_singleton, List.intercalate_singleton]
          exact unifyBreaks_of_notMem hreturn
      | cons next lines =>
          rw [List.intercalate_cons_cons, List.intercalate_cons_cons, List.append_assoc,
            List.append_assoc, unifyBreaks_append hreturn, ← ih]
          congr 1
          simp only [List.mem_cons, List.not_mem_nil, or_false] at hseparator
          rcases hseparator with rfl | rfl | rfl
          · rfl
          · rfl
          · -- neither the next line nor the end after it starts with a line feed
            apply unifyBreaks_return
            have hnext := (hlines next (by simp)).2
            intro hhead
            cases next with
            | nil => cases lines <;> simp [List.intercalate_cons_cons] at hhead
            | cons c next =>
                have hc : c = '\n' := by
                  cases lines <;> simpa [List.intercalate_cons_cons] using hhead
                exact hnext (by simp [hc])

theorem encode_ofList (cs : List Char) :
    encode (String.ofList cs) = cs.flatMap String.utf8EncodeChar := by
  rw [encode, String.toList_ofList]

theorem decodeText_encode_ofList (cs : List Char) :
    decodeText (encode (String.ofList cs)) = .ok (String.ofList (unifyBreaks cs)) := by
  rw [decodeText, encode_ofList, decodeFrom_encode]
  rfl

/-- Bytes that start with a mark are those of a text that does. -/
theorem exists_of_mark_prefix {s : String} (h : byteOrderMark <+: encode s) :
    ∃ cs, s.toList = '\uFEFF' :: cs := by
  obtain ⟨rest, hrest⟩ := h
  obtain ⟨next, hfirst⟩ := decodeFrom_encodeChar 0 '\uFEFF' rest
  have hdecode : decodeFrom 0 (byteOrderMark ++ rest) = .ok s.toList := by
    rw [hrest]
    exact decodeFrom_encode 0 s.toList
  have hmapped := hfirst.symm.trans hdecode
  cases hdecoded : decodeFrom next rest with
  | error e =>
      rw [hdecoded] at hmapped
      cases hmapped
  | ok cs =>
      rw [hdecoded] at hmapped
      exact ⟨cs, (Except.ok.inj hmapped).symm⟩

/-- Bytes that break off within a mark are those of no text but the empty one. -/
theorem eq_empty_of_prefix_mark {s : String} (h : encode s <+: byteOrderMark)
    (hlength : (encode s).length < 3) : s.toList = [] := by
  have hdecode : decodeFrom 0 (encode s) = .ok s.toList := decodeFrom_encode 0 s.toList
  rw [List.prefix_iff_eq_take.mp h] at hdecode
  generalize (encode s).length = n at hlength hdecode
  match n, hlength with
  | 0, _ => exact (Except.ok.inj hdecode).symm
  | 1, _ | 2, _ => cases hdecode

/-- The bytes of a text are read as the text less one mark in front. -/
theorem decodeMarkedText_encode (s : String) :
    ∃ cs, (s.toList = cs ∨ s.toList = '\uFEFF' :: cs) ∧
      decodeMarkedText (encode s) = .ok (String.ofList (unifyBreaks cs)) := by
  rw [decodeMarkedText]
  split
  · rename_i hshort
    obtain ⟨hlength, hprefix⟩ := Bool.and_eq_true_iff.mp hshort
    exact ⟨[], .inl (eq_empty_of_prefix_mark (List.isPrefixOf_iff_prefix.mp hprefix)
      (of_decide_eq_true hlength)), rfl⟩
  split
  · rename_i hmark
    obtain ⟨cs, hcs⟩ := exists_of_mark_prefix (List.isPrefixOf_iff_prefix.mp hmark)
    refine ⟨cs, .inr hcs, ?_⟩
    have hdrop : (encode s).drop 3 = encode (String.ofList cs) := by
      rw [encode_ofList, encode, hcs]
      rfl
    rw [hdrop, decodeText_encode_ofList]
  · refine ⟨s.toList, .inl rfl, ?_⟩
    rw [← decodeText_encode_ofList, String.ofList_toList]

end Text

namespace Slim

theorem sourceLines_eq (source : String) :
    sourceLines source =
      Text.splitLines ((Text.unifyBreaks source.toList).dropWhile (· == '\uFEFF')) := by
  rw [sourceLines, Text.unifyBreaks_dropWhile]

theorem sourceLines_unified {source source' : String}
    (h : Text.unifyBreaks source.toList = Text.unifyBreaks source'.toList) :
    sourceLines source = sourceLines source' := by
  rw [sourceLines_eq, h, ← sourceLines_eq]

theorem sourceLines_marked (marks : Nat) (source : String) :
    sourceLines (String.ofList (List.replicate marks '\uFEFF') ++ source) =
      sourceLines source := by
  have hmarks : ∀ c ∈ List.replicate marks '\uFEFF', (c == '\uFEFF') = true := by
    intro c hc
    rw [List.eq_of_mem_replicate hc]
    rfl
  rw [sourceLines, String.toList_append, String.toList_ofList,
    List.dropWhile_append_of_pos hmarks, ← sourceLines]

/-- Lines that are joined by line ends of any one kind, after any number of marks. -/
theorem sourceLines_joined {separator : String} {lines : List String} (marks : Nat)
    (hlines : ∀ line ∈ lines, '\r' ∉ line.toList ∧ '\n' ∉ line.toList)
    (hseparator : separator ∈ ["\n", "\r\n", "\r"]) :
    sourceLines (String.ofList (List.replicate marks '\uFEFF') ++ separator.intercalate lines) =
      sourceLines ("\n".intercalate lines) := by
  have hjoin : ∀ separator ∈ ["\n", "\r\n", "\r"],
      Text.unifyBreaks (separator.intercalate lines).toList =
        ['\n'].intercalate (lines.map String.toList) := by
    intro separator hseparator
    rw [String.toList_intercalate]
    apply Text.unifyBreaks_join
    · simpa using hlines
    · exact List.mem_map_of_mem (f := String.toList) hseparator
  rw [sourceLines_marked]
  exact sourceLines_unified ((hjoin separator hseparator).trans (hjoin "\n" (by simp)).symm)

end Slim

namespace Files

/-- A file that holds a text is read as a source with the same lines. -/
theorem readSource_encode {tree : FileTree} {p : Path} {text : String}
    (h : tree.readFile p = .ok (Text.encode text)) :
    ∃ read, readSource tree p = .ok read ∧ Slim.sourceLines read = Slim.sourceLines text := by
  obtain ⟨cs, hcs, hdecode⟩ := Text.decodeMarkedText_encode text
  refine ⟨String.ofList (Text.unifyBreaks cs), by simp only [readSource, h, hdecode], ?_⟩
  have hread : Slim.sourceLines (String.ofList (Text.unifyBreaks cs)) =
      Slim.sourceLines (String.ofList cs) := by
    apply Slim.sourceLines_unified
    rw [String.toList_ofList, String.toList_ofList]
    exact Text.unifyBreaks_of_notMem (Text.notMem_unifyBreaks cs)
  rw [hread]
  cases hcs with
  | inl hcs => rw [← hcs, String.ofList_toList]
  | inr hcs =>
      have htext : text = String.ofList (List.replicate 1 '\uFEFF') ++ String.ofList cs := by
        rw [← String.ofList_append, List.replicate_one, List.singleton_append, ← hcs,
          String.ofList_toList]
      rw [htext, Slim.sourceLines_marked]

end Files

/-- A document is read from its lines alone, and so is what is converted from it. -/
theorem convert_congr {source source' : String}
    (h : Slim.sourceLines source = Slim.sourceLines source') (options : Erb.Options) :
    convert options source = convert options source' := by
  rw [convert, convert, Slim.Document.parse, Slim.Document.parse, h]

/-- A dry run stops with the report on the conversion, whether the output is refused or not. -/
theorem finish_dryRun {config : Config} {mode : Mode} {source : Path} (root : Option Path)
    (conversion : Conversion) (world : World) (hdry : mode.dryRun = true)
    (hextension : hasExtension source.name config.extension = true) :
    Ensures (ConvertFile.finish config mode source root conversion) world fun result _ =>
      ∃ report, result = .ok report ∧ report.output = some conversion.output ∧
        report.diagnostics = conversion.document.diagnostics.map (·.message) := by
  obtain ⟨output, houtput⟩ := exists_outputPath_of_named config root
    (ne_empty_of_hasExtension config.extension_dotted hextension)
  rw [ConvertFile.finish, houtput]
  refine (ensures_bind.trans ensures_orThrow).mpr ?_
  dsimp only [Except.mapError]
  cases conversion.faults with
  | nil =>
      rw [hdry]
      exact ⟨_, rfl, rfl, rfl⟩
  | cons fault faults =>
      refine ensures_bind.mpr ?_
      cases mode.force with
      | true =>
          rw [hdry]
          exact ⟨_, rfl, rfl, rfl⟩
      | false => exact ⟨_, rfl, rfl, rfl⟩

/-- A source is a list of lines. It is read alike whichever of the three line ends joins its lines
and however many byte order marks stand in front; and from a file that holds a text it is converted
as from the text, if that can be converted. -/
theorem sources_alike :
    (∀ (lines : List String) (separator : String) (marks : Nat),
      (∀ line ∈ lines, '\r' ∉ line.toList ∧ '\n' ∉ line.toList) →
      separator ∈ ["\n", "\r\n", "\r"] →
      Slim.Document.parse
          (String.ofList (List.replicate marks '\uFEFF') ++ separator.intercalate lines) =
        Slim.Document.parse ("\n".intercalate lines)) ∧
    ∀ (config : Config) (mode : Mode) (source : Path) (root : Option Path) (world : World)
      (text : String) (conversion : Conversion), mode.dryRun = true →
      hasExtension source.name config.extension = true →
      world.tree.readFile source = .ok (Text.encode text) →
      convert config.options text = .ok conversion →
      Ensures (convertFile config mode source root) world fun result _ =>
        ∃ report, result = .ok report ∧ report.output = some conversion.output ∧
          report.diagnostics = conversion.document.diagnostics.map (·.message) := by
  constructor
  · intro lines separator marks hlines hseparator
    rw [Slim.Document.parse, Slim.Document.parse,
      Slim.sourceLines_joined marks hlines hseparator]
  · intro config mode source root world text conversion hdry hextension hfile hconvert
    obtain ⟨read, hread, hlines⟩ := readSource_encode hfile
    rw [convertFile, hextension]
    refine (ensures_bind.trans ensures_probe).mpr ?_
    rw [isFile_of_readFile hfile]
    refine (ensures_bind.trans ensures_tree).mpr ?_
    dsimp only
    rw [hread]
    dsimp only
    rw [convert_congr hlines, hconvert]
    refine (ensures_bind.trans ensures_recordAll).mpr ?_
    exact finish_dryRun root conversion _ hdry hextension

/-- Two marks, adjoining line ends of all kinds, a value that is not closed and a tab. -/
def markedSource : String :=
  "\uFEFF\uFEFFdiv\r\r\n  p a=\"b\n\r\t| d\r\n"

def markedTree : FileTree :=
  (⟨[], []⟩ : FileTree).set ["A.Slim"] (.file (Text.encode markedSource))

theorem sources_alike_markedSource :
    (∀ line ∈ ["\uFEFFdiv", "", "  p"], '\r' ∉ line.toList ∧ '\n' ∉ line.toList) ∧
      Slim.Document.parse (String.ofList (List.replicate 2 '\uFEFF') ++
          "\r".intercalate ["\uFEFFdiv", "", "  p"]) =
        Slim.Document.parse ("\n".intercalate ["\uFEFFdiv", "", "  p"]) ∧
      hasExtension (Path.ofText "A.Slim").name Config.standard.extension = true ∧
      markedTree.readFile (.ofText "A.Slim") = .ok (Text.encode markedSource) ∧
      ∃ conversion, convert Config.standard.options markedSource = .ok conversion ∧
        Ensures (convertFile Config.standard ⟨true, false⟩ (.ofText "A.Slim") none)
          { tree := markedTree } fun result _ =>
          ∃ report, result = .ok report ∧ report.output = some conversion.output ∧
            report.diagnostics = conversion.document.diagnostics.map (·.message) := by
  have hlines : ∀ line ∈ ["\uFEFFdiv", "", "  p"], '\r' ∉ line.toList ∧ '\n' ∉ line.toList := by
    decide
  have hextension : hasExtension (Path.ofText "A.Slim").name Config.standard.extension = true := by
    decide +kernel
  have hfile : markedTree.readFile (.ofText "A.Slim") = .ok (Text.encode markedSource) := by
    decide +kernel
  have hconvert : (convert Config.standard.options markedSource).isOk = true := by
    decide +kernel
  refine ⟨hlines, sources_alike.1 _ "\r" 2 hlines (by simp), hextension, hfile, ?_⟩
  cases hconversion : convert Config.standard.options markedSource with
  | error overflow =>
      rw [hconversion] at hconvert
      cases hconvert
  | ok conversion =>
      exact ⟨conversion, rfl, sources_alike.2 _ ⟨true, false⟩ _ none { tree := markedTree } _ _ rfl
        hextension hfile hconversion⟩

end SlimTemplate
