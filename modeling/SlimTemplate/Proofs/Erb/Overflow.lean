import SlimTemplate.Proofs.Erb.Stack
import SlimTemplate.Proofs.Slim.Numbering

/-!
When writing fails. The only thing that can go wrong is an indentation, and it is the line of a node
itself that goes wrong first: a closing line stands where the line of its block already stood. Main
statement: a document fails exactly if some node is indented too far, to either side, and a writer
that failed writes the next document as a new one does.
-/

namespace SlimTemplate.Erb

open Slim (Node)

/-- A node would be indented further, to either side, than an indentation can be. Document types are
not indented. -/
def TooFar (options : Options) (node : Node) : Prop :=
  node.construct.kind ≠ .doctype ∧
    (node.depth * options.indentSize < Int64.minValue.toInt ∨
      Int64.maxValue.toInt < node.depth * options.indentSize)

instance (options : Options) (node : Node) : Decidable (TooFar options node) :=
  inferInstanceAs (Decidable (_ ∧ _))

/-- Everything a writer has written, and all that it still has to close, can be indented. -/
structure Writer.InRange (options : Options) (writer : Writer) : Prop where
  lines : ∀ line ∈ writer.lines, fitsIndentation (line.depth * options.indentSize) = true
  stack : ∀ block ∈ writer.stack, fitsIndentation (block.depth * options.indentSize) = true

section Nodes

variable {options : Options} {node : Node}

theorem ownDepth_eq_depth (h : node.construct.kind ≠ .doctype) : ownDepth node = node.depth := by
  obtain ⟨construct, depth, line, raw⟩ := node
  cases construct with
  | doctype => exact absurd rfl h
  | tag | text | statement | expression | comment => rfl

theorem kind_ne_doctype_of_opensBlock {takesOver : Bool} {next : Option Node}
    (h : opensBlock options takesOver node next = true) : node.construct.kind ≠ .doctype := by
  obtain ⟨construct, depth, line, raw⟩ := node
  cases construct with
  | tag | statement | expression => simp [Slim.Construct.kind]
  | text | comment | doctype => cases h

theorem overflows_iff : overflows options node = true ↔ TooFar options node := by
  by_cases hkind : node.construct.kind = .doctype
  · obtain ⟨construct, depth, line, raw⟩ := node
    cases construct with
    | doctype =>
        refine iff_of_false ?_ fun hfar => hfar.1 rfl
        simp only [overflows, ownDepth, Int.zero_mul]
        decide
    | tag | text | statement | expression | comment => cases hkind
  · rw [overflows, ownDepth_eq_depth hkind, TooFar, fitsIndentation, Bool.not_eq_true',
      Bool.and_eq_false_iff, decide_eq_false_iff_not, decide_eq_false_iff_not, Int.not_le,
      Int.not_le]
    simp [hkind]

end Nodes

section Steps

variable {options : Options} {writer after : Writer}

theorem Writer.InRange.write {node : Node} {next : Option Node} (h : writer.InRange options)
    (hwrite : writer.write options node next = .ok after) : after.InRange options := by
  have hown : fitsIndentation (ownDepth node * options.indentSize) = true := by
    rw [Writer.write] at hwrite
    split at hwrite
    · cases hwrite
    · simpa [overflows] using ‹¬overflows options node = true›
  cases write_eq_ok hwrite
  constructor
  · intro line hline
    rcases List.mem_append.mp hline with hold | hnew
    · exact h.lines line hold
    · obtain ⟨body, -, rfl⟩ := Option.map_eq_some_iff.mp (Option.mem_toList.mp hnew)
      exact hown
  · intro block hblock
    simp only [pushBlock] at hblock
    split at hblock
    · rename_i hopens
      rcases List.mem_cons.mp hblock with rfl | hold
      · rwa [← ownDepth_eq_depth (kind_ne_doctype_of_opensBlock hopens)]
      · exact h.stack block hold
    · exact h.stack block hblock

/-- The closing lines stand at depths of blocks that were open. -/
theorem Writer.InRange.closeTo (h : writer.InRange options) (depth : Int) (next : Option Node) :
    (writer.closeTo depth next).InRange options := by
  obtain ⟨closed, taken, hcloses⟩ := closeTo_closesTo writer depth next
  constructor
  · intro line hline
    rw [hcloses.lines] at hline
    rcases List.mem_append.mp hline with hold | hnew
    · exact h.lines line hold
    · obtain ⟨block, hblock, rfl⟩ := List.mem_map.mp hnew
      refine h.stack block ?_
      rw [hcloses.stack]
      exact List.mem_append_left _ (List.mem_append_left _ hblock)
  · intro block hblock
    refine h.stack block ?_
    rw [hcloses.stack]
    exact List.mem_append_right _ hblock

theorem Writer.InRange.writeAll (h : writer.InRange options) (nodes : List Node) :
    (writer.writeAll options nodes).1.InRange options := by
  induction nodes generalizing writer with
  | nil => exact h.closeTo 0 none
  | cons node rest ih =>
      rw [Writer.writeAll]
      cases hwrite : writer.write options node rest.head? with
      | error overflow => exact h
      | ok after =>
          have hafter := h.write hwrite
          dsimp only
          cases rest.head? with
          | none => exact ih hafter
          | some next => exact ih (hafter.closeTo next.depth (some next))

end Steps

theorem documentText_eq_ite (options : Options) (nodes : List Node) :
    documentText options nodes =
      if nodes.any (overflows options) then .error .indentation
      else .ok (writtenText options nodes) := by
  rw [documentText_eq_map, documentLines_eq_ite]
  split
  · rfl
  · rfl

theorem any_overflows_iff {options : Options} {nodes : List Node} :
    nodes.any (overflows options) = true ↔ ∃ node ∈ nodes, TooFar options node := by
  simp only [List.any_eq_true, overflows_iff]

/-- The nodes of a source are indented as far as its lines that are not blank. -/
theorem not_tooFar_parse {options : Options} {source : String}
    (h : ∀ cs ∈ Slim.sourceLines source, Text.trim cs ≠ [] →
      (cs.takeWhile Text.isBlank).length * options.indentSize ≤ Int64.maxValue.toInt) :
    ¬∃ node ∈ (Slim.Document.parse source).nodes, TooFar options node := by
  rintro ⟨node, hnode, -, hfar⟩
  obtain ⟨i, cs, hcs, hread⟩ := Slim.mem_readLines_iff.mp hnode
  have hfull : Text.trim cs ≠ [] := by
    intro hblank
    have hnone : (Slim.readLine (1 + i) cs).1 = none :=
      Slim.readLine_eq_none_iff.mpr (List.isEmpty_iff.mpr hblank)
    cases hread.symm.trans hnone
  have hline := h cs (List.mem_of_getElem? hcs) hfull
  rw [(Slim.readsLine_of_readLine hread).depth] at hfar
  have hpos : 0 ≤ ((cs.takeWhile Text.isBlank).length : Int) * options.indentSize :=
    Int.mul_nonneg (Int.natCast_nonneg _) (Int.natCast_nonneg _)
  have hmin : Int64.minValue.toInt ≤ 0 := by decide
  omega

/-- A document fails exactly if some node is indented too far, and what it has written by then,
closing lines included, could be indented. So no source fails whose lines are not indented too far.
A writer in any state, also after a failure, writes a document as a new writer does. -/
theorem document_fails_iff (options : Options) (nodes : List Node) :
    (documentText options nodes = .error .indentation ↔ ∃ node ∈ nodes, TooFar options node) ∧
    ((∃ text, documentText options nodes = .ok text) ↔ ∀ node ∈ nodes, ¬TooFar options node) ∧
    (({} : Writer).writeAll options nodes).1.InRange options ∧
    (∀ source, (∀ cs ∈ Slim.sourceLines source, Text.trim cs ≠ [] →
        (cs.takeWhile Text.isBlank).length * options.indentSize ≤ Int64.maxValue.toInt) →
      ∃ conversion, convert options source = .ok conversion) ∧
    ∀ writer : Writer,
      writer.generate options nodes = ({} : Writer).generate options nodes ∧
        (writer.generate options nodes).2 = documentText options nodes := by
  refine ⟨?_, ?_, ?_, ?_, fun writer => ⟨rfl, rfl⟩⟩
  · rw [documentText_eq_ite, ← any_overflows_iff]
    simp
  · have hnone : (∀ node ∈ nodes, ¬TooFar options node) ↔
        ¬nodes.any (overflows options) = true := by
      rw [any_overflows_iff]
      simp
    rw [documentText_eq_ite, hnone]
    split
    · simp [*]
    · simp [*]
  · have hempty : ({} : Writer).InRange options := ⟨List.forall_mem_nil _, List.forall_mem_nil _⟩
    exact hempty.writeAll nodes
  · intro source hlines
    have hnone := not_tooFar_parse hlines
    rw [← any_overflows_iff] at hnone
    rw [convert_eq_map, documentText_eq_ite, if_neg hnone]
    exact ⟨_, rfl⟩

/-- Two elements, and in them a line too far to the right. -/
def farNodes : List Node :=
  [{ construct := .tag "ul" [] [] }, { construct := .tag "li" [] [], depth := 3 },
   { construct := .text "one", depth := 5000000000000000000 }]

def wideOptions : Options := { indentSize := 2, indentSize_pos := Nat.two_pos }

theorem document_fails_iff_farNodes :
    documentText wideOptions farNodes = .error .indentation ∧
      (({} : Writer).generate wideOptions farNodes).1.stack.length = 2 ∧
      ((({} : Writer).generate wideOptions farNodes).1.generate wideOptions
        [{ construct := .text "two", depth := 1 }]).2 = .ok "  two" ∧
      ∃ conversion, convert wideOptions "ul\n  li one\r\n \t " = .ok conversion := by
  obtain ⟨hfails, -, -, hconvert, -⟩ := document_fails_iff wideOptions farNodes
  obtain ⟨-, -, -, -, hanew⟩ :=
    document_fails_iff wideOptions [{ construct := .text "two", depth := 1 }]
  refine ⟨hfails.mpr ⟨farNodes[2], by decide, by decide⟩, by decide, ?_, hconvert _ (by decide)⟩
  rw [(hanew _).2]
  decide

/-- An indentation ends on the left as well, though it adds no space there. -/
theorem document_fails_leftwards :
    ∃ options : Options, ∃ node : Node, ¬Int64.maxValue.toInt < node.depth * options.indentSize ∧
      documentText options [node] = .error .indentation :=
  ⟨{ indentSize := 1000000000000000000000000000000, indentSize_pos := by decide },
    { construct := .tag "p" [] [], depth := -1 }, by decide, by decide⟩

end SlimTemplate.Erb
