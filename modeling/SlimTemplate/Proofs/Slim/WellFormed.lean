import SlimTemplate.Proofs.Slim.Characters
import SlimTemplate.Proofs.Slim.Names
import SlimTemplate.Proofs.Slim.Numbering

/-!
Well-formed documents. Whatever a source holds, each of its lines that is not blank is read as one
node that keeps the line, its number and its indentation; a tag has a name, keys and at most one
piece of inline content, and every other node has a content and nothing else. Diagnostics belong to
lines that were read as nodes.
-/

namespace SlimTemplate.Slim

/-! The parts of a construct. -/

namespace Construct

def content? : Construct → Option String
  | .tag .. => none
  | .text s | .statement s | .expression s | .comment s | .doctype s => some s

def tagName? : Construct → Option String
  | .tag name .. => some name
  | _ => none

def attributes : Construct → Attributes
  | .tag _ attributes _ => attributes
  | _ => []

def inline : Construct → List Inline
  | .tag _ _ inline => inline
  | _ => []

end Construct

def EndsFull (s : String) : Prop :=
  ∀ c ∈ s.toList.getLast?, Text.isBlank c = false

def Unbroken (s : String) : Prop :=
  Text.Spelled (fun c => c ≠ '\n' ∧ c ≠ '\r') s

/-- Content on the line of a tag: text or output code that says something. By its type it has no
inline content of its own. -/
structure Inline.WellFormed (node : Node) (part : Inline) : Prop where
  kind : part.kind = .text ∨ part.kind = .expression
  depth : part.depth = node.depth
  line : part.line = node.line
  raw : part.raw = node.raw
  notBlank : ∃ c ∈ part.content.toList, Text.isBlank c = false
  endsFull : EndsFull part.content
  unbroken : Unbroken part.content

structure Node.IsTag (node : Node) : Prop where
  content : node.construct.content? = none
  name : ∃ name, node.construct.tagName? = some name ∧ IsTagName name.toList
  keys : HasKeys node.construct.attributes
  values : ∀ pair ∈ node.construct.attributes, Unbroken pair.2
  inline : node.construct.inline.length ≤ 1
  parts : ∀ part ∈ node.construct.inline, part.WellFormed node

structure Node.IsContent (node : Node) : Prop where
  content : ∃ content, node.construct.content? = some content ∧ EndsFull content ∧ Unbroken content
  name : node.construct.tagName? = none
  attributes : node.construct.attributes = []
  inline : node.construct.inline = []

/-- A node keeps a line, which is not blank, with its number and its indentation. -/
structure Node.Keeps (lines : List (List Char)) (node : Node) (i : Nat) : Prop where
  line : node.line = i + 1
  raw : ∃ cs, lines[i]? = some cs ∧ node.raw = String.ofList cs ∧
    node.depth = (cs.takeWhile Text.isBlank).length ∧ ∃ c ∈ cs, Text.isBlank c = false

structure Document.WellFormed (lines : List (List Char)) (document : Document) : Prop where
  kept : ∀ node ∈ document.nodes, ∃ i, node.Keeps lines i
  complete : ∀ i cs, lines[i]? = some cs → (∃ c ∈ cs, Text.isBlank c = false) →
    ∃ node ∈ document.nodes, node.Keeps lines i
  increasing : document.nodes.Pairwise (·.line < ·.line)
  tags : ∀ node ∈ document.nodes, node.construct.kind = .tag → node.IsTag
  contents : ∀ node ∈ document.nodes, node.construct.kind ≠ .tag → node.IsContent
  diagnostics : ∀ diagnostic ∈ document.diagnostics, ∃ node ∈ document.nodes,
    ("line " ++ toString node.line ++ ":").toList <+: diagnostic.message.toList ∧
      node.line = diagnostic.line
  ordered : document.diagnostics.Pairwise (·.line ≤ ·.line)

/-! Inline content. -/

theorem endsFull_of_trimmed (before : List Char) {cs : List Char}
    (h : Text.Trimmed (before ++ cs)) : EndsFull (String.ofList cs) := by
  intro c hc
  rw [String.toList_ofList, Option.mem_def] at hc
  refine h.stop c ?_
  rw [List.getLast?_append, hc]
  rfl

/-- What is left of a tag line is read as one piece of content, or as none if nothing is left. -/
theorem readInline_cases {cs : List Char} (h : Text.Trimmed cs) (depth : Int) (line : Nat)
    (raw : String) :
    readInline cs depth line raw = [] ∨ ∃ kind content,
      readInline cs depth line raw = [⟨kind, String.ofList content, depth, line, raw⟩] ∧
        (kind = .text ∨ kind = .expression) ∧ content ≠ [] ∧
        EndsFull (String.ofList content) := by
  rw [readInline.eq_def]
  split
  · exact .inl rfl
  · rename_i code
    refine .inr ⟨.expression, code, rfl, .inr rfl, ?_, endsFull_of_trimmed ['=', ' '] h⟩
    -- an equals sign and a space with nothing behind them would end in a blank
    rintro rfl
    cases (h.stop ' ' rfl).symm.trans Text.isBlank_space
  · rename_i hne _
    exact .inr ⟨.text, cs, rfl, .inl rfl, hne, endsFull_of_trimmed [] h⟩

/-- A tag line is read as a tag with at most one piece of inline content. -/
theorem readTag_cases (content : List Char) (depth : Int) (line : Nat) (raw : String) :
    ∃ name attributes inline,
      (readTag content depth line raw).1 = ⟨.tag name attributes inline, depth, line, raw⟩ ∧
        (inline = [] ∨ ∃ kind content,
          inline = [⟨kind, String.ofList content, depth, line, raw⟩] ∧
            (kind = .text ∨ kind = .expression) ∧ content ≠ [] ∧
            EndsFull (String.ofList content)) := by
  rw [readTag]
  split
  · rename_i head code hsplit
    refine ⟨_, _, _, rfl, .inr ⟨.expression, code, rfl, .inr rfl, ?_⟩⟩
    rw [splitOutput?] at hsplit
    split at hsplit
    · rename_i hcode
      cases hsplit
      simp only [Bool.and_eq_true, Bool.not_eq_true', List.isEmpty_eq_false_iff] at hcode
      exact ⟨hcode.2, endsFull_of_trimmed [] (Text.trimmed_trim _)⟩
    · cases hsplit
  · exact ⟨_, _, _, rfl, readInline_cases (Text.trimmed_trim _) depth line raw⟩

/-! Nodes. -/

section Line

variable {line : Nat} {cs : List Char} {node : Node}

/-- A line that is read as a tag is read by the rules of tag lines. -/
theorem readLine_tag (h : (readLine line cs).1 = some node) (htag : node.construct.kind = .tag) :
    node = (readTag (Text.trim cs) (cs.takeWhile Text.isBlank).length line
      (String.ofList cs)).1 := by
  rw [readLine] at h
  dsimp only at h
  split at h
  · cases h
  split at h
  iterate 4
    · cases h
      cases htag
  · split at h
    · cases h
      cases htag
    · cases h
      rfl

theorem readLine_unbroken (hline : ∀ c ∈ cs, c ≠ '\n' ∧ c ≠ '\r')
    (h : (readLine line cs).1 = some node) : node.Spelled fun c => c ≠ '\n' ∧ c ≠ '\r' := by
  refine readLine_spelled (fun c hc => ⟨?_, ?_⟩) hline h
  · rintro rfl
    cases hc
  · rintro rfl
    cases hc

theorem readLine_isTag (hline : ∀ c ∈ cs, c ≠ '\n' ∧ c ≠ '\r')
    (h : (readLine line cs).1 = some node) (htag : node.construct.kind = .tag) : node.IsTag := by
  have hspelled := readLine_unbroken hline h
  obtain ⟨name, attributes, inline, hread, hinline⟩ := readTag_cases (Text.trim cs)
    (cs.takeWhile Text.isBlank).length line (String.ofList cs)
  have hnamed := (readLine_wellNamed h).1
  obtain rfl := (readLine_tag h htag).trans hread
  obtain ⟨-, hvalues, hparts⟩ := hspelled
  refine ⟨rfl, ⟨name, rfl, hnamed.1⟩, hnamed.2, fun pair hpair => (hvalues pair hpair).2, ?_, ?_⟩
  · rcases hinline with rfl | ⟨kind, content, rfl, -⟩
    · exact Nat.zero_le 1
    · exact Nat.le_refl 1
  · intro part hpart
    have hunbroken := hparts part hpart
    rcases hinline with rfl | ⟨kind, content, rfl, hkind, hne, hfull⟩
    · cases hpart
    · obtain rfl := List.mem_singleton.mp hpart
      refine ⟨hkind, rfl, rfl, rfl, ?_, hfull, hunbroken⟩
      rw [EndsFull, String.toList_ofList] at hfull
      rw [String.toList_ofList]
      exact ⟨_, List.getLast_mem hne, hfull _ (List.getLast?_eq_some_getLast hne)⟩

theorem readLine_isContent (hline : ∀ c ∈ cs, c ≠ '\n' ∧ c ≠ '\r')
    (h : (readLine line cs).1 = some node) (htag : node.construct.kind ≠ .tag) :
    node.IsContent := by
  have hspelled := readLine_unbroken hline h
  have htrimmed := Text.trimmed_trim cs
  have hform := (readsLine_of_readLine h).form
  obtain ⟨construct, depth, number, raw⟩ := node
  cases hform with
  | comment _ =>
      exact ⟨⟨_, rfl, endsFull_of_trimmed [] (Text.trimmed_trim _), hspelled⟩, rfl, rfl, rfl⟩
  | expression hcontent | statement hcontent | text hcontent =>
      rw [hcontent] at htrimmed
      exact ⟨⟨_, rfl, endsFull_of_trimmed [_, ' '] htrimmed, hspelled⟩, rfl, rfl, rfl⟩
  | doctype _ =>
      exact ⟨⟨_, rfl, endsFull_of_trimmed [] htrimmed, hspelled⟩, rfl, rfl, rfl⟩
  | tag _ => exact absurd rfl htag

end Line

/-! Documents. -/

theorem exists_notBlank_iff {cs : List Char} :
    (∃ c ∈ cs, Text.isBlank c = false) ↔ (Text.trim cs).isEmpty = false := by
  rw [List.isEmpty_eq_false_iff, ne_eq, Text.trim_eq_nil_iff]
  simp

theorem keeps_of_readLine {lines : List (List Char)} {i : Nat} {cs : List Char} {node : Node}
    (hcs : lines[i]? = some cs) (h : (readLine (1 + i) cs).1 = some node) :
    node.Keeps lines i := by
  have hread := readsLine_of_readLine h
  have hfull : (Text.trim cs).isEmpty = false := by
    rw [← Bool.not_eq_true]
    intro hblank
    cases h.symm.trans (readLine_eq_none_iff.mpr hblank)
  exact ⟨hread.line.trans (Nat.add_comm 1 i),
    cs, hcs, hread.raw, hread.depth, exists_notBlank_iff.mpr hfull⟩

theorem message_prefix (diagnostic : Diagnostic) :
    ("line " ++ toString diagnostic.line ++ ":").toList <+: diagnostic.message.toList := by
  refine ⟨' ' :: diagnostic.suspicion.message.toList, ?_⟩
  simp [Diagnostic.message]

/-- Every document that is read from a source is well formed. -/
theorem parse_wellFormed (source : String) :
    (Document.parse source).WellFormed (sourceLines source) := by
  have hlines : ∀ {i cs}, (sourceLines source)[i]? = some cs → ∀ c ∈ cs, c ≠ '\n' ∧ c ≠ '\r' :=
    fun hcs => sourceLines_unbroken (List.mem_of_getElem? hcs)
  obtain ⟨hincreasing, hordered⟩ := readLines_ordered 1 (sourceLines source)
  refine ⟨fun node hnode => ?_, fun i cs hcs hfull => ?_, hincreasing, fun node hnode htag => ?_,
    fun node hnode htag => ?_, fun diagnostic hdiagnostic => ?_, hordered⟩
  · obtain ⟨i, cs, hcs, hread⟩ := mem_readLines_iff.mp hnode
    exact ⟨i, keeps_of_readLine hcs hread⟩
  · cases hread : (readLine (1 + i) cs).1 with
    | none =>
        have hblank := readLine_eq_none_iff.mp hread
        rw [exists_notBlank_iff.mp hfull] at hblank
        cases hblank
    | some node =>
        exact ⟨node, mem_readLines_iff.mpr ⟨i, cs, hcs, hread⟩, keeps_of_readLine hcs hread⟩
  · obtain ⟨i, cs, hcs, hread⟩ := mem_readLines_iff.mp hnode
    exact readLine_isTag (hlines hcs) hread htag
  · obtain ⟨i, cs, hcs, hread⟩ := mem_readLines_iff.mp hnode
    exact readLine_isContent (hlines hcs) hread htag
  · obtain ⟨i, cs, hcs, hline, hsuspicion⟩ := mem_diagnostics_iff.mp hdiagnostic
    cases hread : (readLine (1 + i) cs).1 with
    | none =>
        rw [readLine_suspicions hread] at hsuspicion
        cases hsuspicion
    | some node =>
        have hsame : node.line = diagnostic.line :=
          (readsLine_of_readLine hread).line.trans hline.symm
        refine ⟨node, mem_readLines_iff.mpr ⟨i, cs, hcs, hread⟩, ?_, hsame⟩
        rw [hsame]
        exact message_prefix diagnostic

end SlimTemplate.Slim
