import SlimTemplate.Conversion.Basic
import SlimTemplate.Proofs.Slim.Names

/-!
What a whole run of the writer adds to its lines, as a recursion over the nodes that are left. The
state of a run is the stack of open blocks and whether the next node takes one over; a node is
written, then the blocks are closed that the node after it ends. Depths strictly increase towards
the top of the stack, which every step preserves.
-/

namespace SlimTemplate.Erb

open Slim (Node)

/-- The line of a node itself is not indented further than an indentation can be. -/
def Fits (options : Options) (node : Node) : Prop :=
  ownDepth node * options.indentSize ≤ Int64.maxValue.toInt

instance (options : Options) (node : Node) : Decidable (Fits options node) :=
  inferInstanceAs (Decidable (_ ≤ _))

/-- The stack after a node: its own block is on top if it opens one. -/
def pushBlock (options : Options) (takesOver : Bool) (node : Node) (next : Option Node)
    (stack : List Node) : List Node :=
  if opensBlock options takesOver node next then node :: stack else stack

/-- Closes what the next node ends; after the last node nothing is closed yet. -/
def closeBefore (next : Option Node) (stack : List Node) : List Line × List Node × Bool :=
  match next with
  | none => ([], stack, false)
  | some node => closeBlocks node.depth next stack

def written (options : Options) : List Node → Bool → List Node → List Line
  | stack, _, [] => (closeBlocks 0 none stack).1
  | stack, takesOver, node :: rest =>
      let closed := closeBefore rest.head? (pushBlock options takesOver node rest.head? stack)
      (ownLine? options node rest.head?).toList ++ closed.1 ++
        written options closed.2.1 closed.2.2 rest

def writtenText (options : Options) (nodes : List Node) : String :=
  "\n".intercalate ((written options [] false nodes).map (·.render options.indentSize))

theorem overflows_eq_false {options : Options} {node : Node} (hdepth : 0 ≤ node.depth)
    (hfits : Fits options node) : overflows options node = false := by
  have hown : 0 ≤ ownDepth node := by
    rw [ownDepth]
    split
    · exact Int.le_refl 0
    · exact hdepth
  have hpos : 0 ≤ ownDepth node * options.indentSize :=
    Int.mul_nonneg hown (Int.natCast_nonneg _)
  rw [Fits] at hfits
  have hmin : Int64.minValue.toInt ≤ 0 := by decide
  simp only [overflows, fitsIndentation, Bool.not_eq_false', Bool.and_eq_true, decide_eq_true_eq]
  exact ⟨Int.le_trans hmin hpos, hfits⟩

/-- A run that meets no overflow ends well and adds exactly the lines of `written`. -/
theorem writeAll_eq (options : Options) (writer : Writer) (nodes : List Node)
    (hfits : ∀ node ∈ nodes, overflows options node = false) :
    ∃ stack continuing, writer.writeAll options nodes =
      (⟨writer.lines ++ written options writer.stack writer.continuing nodes, stack, continuing⟩,
        .ok ()) := by
  induction nodes generalizing writer with
  | nil => exact ⟨_, _, rfl⟩
  | cons node rest ih =>
      have hnode := hfits node List.mem_cons_self
      have hrest : ∀ other ∈ rest, overflows options other = false :=
        fun other hother => hfits other (List.mem_cons_of_mem _ hother)
      simp only [Writer.writeAll, Writer.write, hnode, Bool.false_eq_true, ite_false, written]
      cases hnext : rest.head? with
      | none =>
          obtain ⟨stack, continuing, hrun⟩ := ih
            ⟨writer.lines ++ (ownLine? options node none).toList,
              pushBlock options writer.continuing node none writer.stack, false⟩ hrest
          refine ⟨stack, continuing, ?_⟩
          simpa only [pushBlock, closeBefore, List.append_nil, List.append_assoc] using hrun
      | some next =>
          obtain ⟨stack, continuing, hrun⟩ := ih
            (Writer.closeTo
              ⟨writer.lines ++ (ownLine? options node (some next)).toList,
                pushBlock options writer.continuing node (some next) writer.stack, false⟩
              next.depth (some next)) hrest
          refine ⟨stack, continuing, ?_⟩
          simpa only [Writer.closeTo, pushBlock, closeBefore, Bool.false_or,
            List.append_assoc] using hrun

theorem documentLines_eq (options : Options) (nodes : List Node)
    (hfits : ∀ node ∈ nodes, overflows options node = false) :
    documentLines options nodes = .ok (written options [] false nodes) := by
  obtain ⟨stack, continuing, hrun⟩ := writeAll_eq options {} nodes hfits
  simp only [documentLines, hrun]
  rfl

/-- A run that meets a node that cannot be indented ends in an error. -/
theorem writeAll_overflow (options : Options) (writer : Writer) {nodes : List Node}
    (h : ∃ node ∈ nodes, overflows options node = true) :
    (writer.writeAll options nodes).2 = .error .indentation := by
  induction nodes generalizing writer with
  | nil => simp at h
  | cons node rest ih =>
      simp only [Writer.writeAll, Writer.write]
      cases hnode : overflows options node with
      | true => rfl
      | false =>
          have hrest : ∃ other ∈ rest, overflows options other = true := by
            simpa [hnode] using h
          cases hnext : rest.head? with
          | none => exact ih _ hrest
          | some next => exact ih _ hrest

/-- The lines of a document, or its overflow. -/
theorem documentLines_eq_ite (options : Options) (nodes : List Node) :
    documentLines options nodes =
      if nodes.any (overflows options) then .error .indentation
      else .ok (written options [] false nodes) := by
  split
  · rename_i hany
    have herror := writeAll_overflow options {} (List.any_eq_true.mp hany)
    simp only [documentLines, herror]
    rfl
  · rename_i hnone
    refine documentLines_eq options nodes ?_
    simpa using hnone

theorem documentText_eq_map (options : Options) (nodes : List Node) :
    documentText options nodes = (documentLines options nodes).map fun lines =>
      "\n".intercalate (lines.map (·.render options.indentSize)) := by
  simp only [documentText, Writer.generate, documentLines]
  cases (({} : Writer).writeAll options nodes).2 with
  | error overflow => rfl
  | ok _ => rfl

theorem documentText_eq (options : Options) (nodes : List Node)
    (hfits : ∀ node ∈ nodes, overflows options node = false) :
    documentText options nodes = .ok (writtenText options nodes) := by
  rw [documentText_eq_map, documentLines_eq options nodes hfits]
  rfl

theorem overflows_parse {options : Options} {source : String}
    (hfits : ∀ node ∈ (Slim.Document.parse source).nodes, Fits options node) :
    ∀ node ∈ (Slim.Document.parse source).nodes, overflows options node = false :=
  fun node hnode => overflows_eq_false (Slim.parse_wellNamed source node hnode).2 (hfits node hnode)

theorem convert_eq_map (options : Options) (source : String) :
    convert options source =
      (documentText options (Slim.Document.parse source).nodes).map fun output =>
        ⟨Slim.Document.parse source, output, imbalances options.closeStatements output⟩ := by
  rw [convert]
  cases documentText options (Slim.Document.parse source).nodes with
  | error overflow => rfl
  | ok text => rfl

/-- A source whose lines can be indented is converted to the text of the run over its nodes. -/
theorem convert_eq_writtenText {options : Options} {source : String}
    (hfits : ∀ node ∈ (Slim.Document.parse source).nodes, Fits options node) :
    convert options source =
      .ok ⟨Slim.Document.parse source, writtenText options (Slim.Document.parse source).nodes,
        imbalances options.closeStatements
          (writtenText options (Slim.Document.parse source).nodes)⟩ := by
  rw [convert_eq_map, documentText_eq _ _ (overflows_parse hfits)]
  rfl

/-- Open blocks lie in one another: each is deeper than those around it. -/
def Nested (stack : List Node) : Prop :=
  stack.Pairwise fun inner outer => outer.depth < inner.depth

def Encloses (stack : List Node) (depth : Int) : Prop :=
  ∀ block ∈ stack, block.depth < depth

theorem pushBlock_nested {options : Options} {takesOver : Bool} {node : Node}
    {next : Option Node} {stack : List Node} (hnested : Nested stack)
    (hstack : Encloses stack node.depth) :
    Nested (pushBlock options takesOver node next stack) := by
  rw [pushBlock]
  split
  · exact List.pairwise_cons.mpr ⟨hstack, hnested⟩
  · exact hnested

theorem mem_pushBlock {options : Options} {takesOver : Bool} {node block : Node}
    {next : Option Node} {stack : List Node}
    (h : block ∈ pushBlock options takesOver node next stack) : block = node ∨ block ∈ stack := by
  rw [pushBlock] at h
  split at h
  · exact List.mem_cons.mp h
  · exact .inr h

/-- Closing takes blocks from the top only. -/
theorem closeBlocks_suffix (depth : Int) (next : Option Node) (stack : List Node) :
    (closeBlocks depth next stack).2.1 <:+ stack := by
  induction stack with
  | nil => exact List.suffix_refl []
  | cons block outer ih =>
      simp only [closeBlocks]
      split
      · exact List.suffix_refl _
      · split
        · exact List.suffix_cons block outer
        · exact ih.trans (List.suffix_cons block outer)

theorem mem_closeBlocks {depth : Int} {next : Option Node} {stack : List Node} {line : Line}
    (h : line ∈ (closeBlocks depth next stack).1) : ∃ block ∈ stack, line = closerLine block := by
  induction stack with
  | nil => cases h
  | cons block outer ih =>
      simp only [closeBlocks] at h
      split at h
      · cases h
      · split at h
        · cases h
        · cases List.mem_cons.mp h with
          | inl heq => exact ⟨block, List.mem_cons_self, heq⟩
          | inr hmem =>
              obtain ⟨other, hother, heq⟩ := ih hmem
              exact ⟨other, List.mem_cons_of_mem _ hother, heq⟩

/-- What stays open lies around the node that closed the rest. -/
theorem closeBlocks_encloses {depth : Int} {next : Option Node} {stack : List Node}
    (hnested : Nested stack) : Encloses (closeBlocks depth next stack).2.1 depth := by
  induction stack with
  | nil => exact List.forall_mem_nil _
  | cons block outer ih =>
      obtain ⟨hblock, houter⟩ := List.pairwise_cons.mp hnested
      simp only [closeBlocks]
      split
      · rename_i hlt
        intro other hother
        cases List.mem_cons.mp hother with
        | inl heq => exact heq ▸ hlt
        | inr hmem => exact Int.lt_trans (hblock other hmem) hlt
      · split
        · -- The block that is taken over stood at exactly this depth.
          rename_i htaken
          simp only [Bool.and_eq_true, beq_iff_eq] at htaken
          intro other hother
          exact htaken.1.2 ▸ hblock other hother
        · exact ih houter

theorem closeBlocks_nested {depth : Int} {next : Option Node} {stack : List Node}
    (hnested : Nested stack) : Nested (closeBlocks depth next stack).2.1 :=
  hnested.sublist (closeBlocks_suffix depth next stack).sublist

/-- Nothing is closed before a node that all open blocks lie around. -/
theorem closeBlocks_of_encloses {depth : Int} {next : Option Node} {stack : List Node}
    (hstack : Encloses stack depth) : closeBlocks depth next stack = ([], stack, false) := by
  cases stack with
  | nil => rfl
  | cons block outer => simp [closeBlocks, hstack block List.mem_cons_self]

theorem closeBefore_suffix (next : Option Node) (stack : List Node) :
    (closeBefore next stack).2.1 <:+ stack := by
  cases next with
  | none => exact List.suffix_refl stack
  | some node => exact closeBlocks_suffix node.depth (some node) stack

theorem mem_closeBefore {next : Option Node} {stack : List Node} {line : Line}
    (h : line ∈ (closeBefore next stack).1) : ∃ block ∈ stack, line = closerLine block := by
  cases next with
  | none => cases h
  | some node => exact mem_closeBlocks h

theorem closeBefore_nested {next : Option Node} {stack : List Node} (hnested : Nested stack) :
    Nested (closeBefore next stack).2.1 :=
  hnested.sublist (closeBefore_suffix next stack).sublist

theorem closeBefore_encloses {next : Option Node} {stack : List Node} (hnested : Nested stack) :
    ∀ node ∈ next, Encloses (closeBefore next stack).2.1 node.depth := by
  intro node hnode
  cases hnode
  exact closeBlocks_encloses hnested

/-- After the last node all blocks are closed. -/
theorem closeBlocks_all {stack : List Node} (h : ∀ block ∈ stack, 0 ≤ block.depth) :
    (closeBlocks 0 none stack).2.1 = [] := by
  induction stack with
  | nil => rfl
  | cons block outer ih =>
      obtain ⟨hblock, houter⟩ := List.forall_mem_cons.mp h
      simp [closeBlocks, Int.not_lt.mpr hblock, ih houter]

/-- What a run has open after a node was open before it or is the node. -/
theorem mem_append_of_mem_pushBlock {options : Options} {takesOver : Bool} {node block : Node}
    {next : Option Node} {stack rest : List Node}
    (h : block ∈ pushBlock options takesOver node next stack) : block ∈ stack ++ node :: rest := by
  cases mem_pushBlock h with
  | inl heq => exact heq ▸ List.mem_append_right _ List.mem_cons_self
  | inr hmem => exact List.mem_append_left _ hmem

theorem mem_append_of_mem_closeBefore {options : Options} {takesOver : Bool} {node block : Node}
    {next : Option Node} {stack rest : List Node}
    (h : block ∈ (closeBefore next (pushBlock options takesOver node next stack)).2.1 ++ rest) :
    block ∈ stack ++ node :: rest := by
  cases List.mem_append.mp h with
  | inl hopen => exact mem_append_of_mem_pushBlock ((closeBefore_suffix _ _).subset hopen)
  | inr hrest => exact List.mem_append_right _ (List.mem_cons_of_mem _ hrest)

/-- A run writes own lines of its nodes and closing lines of its nodes and open blocks. -/
theorem mem_written {options : Options} {stack nodes : List Node} {takesOver : Bool} {line : Line}
    (h : line ∈ written options stack takesOver nodes) :
    (∃ node ∈ nodes, ∃ next, ownLine? options node next = some line) ∨
      ∃ block ∈ stack ++ nodes, line = closerLine block := by
  induction nodes generalizing stack takesOver with
  | nil =>
      obtain ⟨block, hblock, heq⟩ := mem_closeBlocks h
      exact .inr ⟨block, List.mem_append_left _ hblock, heq⟩
  | cons node rest ih =>
      simp only [written, List.mem_append] at h
      rcases h with (hown | hclosed) | hrest
      · exact .inl ⟨node, List.mem_cons_self, _, Option.mem_toList.mp hown⟩
      · obtain ⟨block, hblock, heq⟩ := mem_closeBefore hclosed
        exact .inr ⟨block, mem_append_of_mem_pushBlock hblock, heq⟩
      · rcases ih hrest with ⟨other, hother, hline⟩ | ⟨block, hblock, heq⟩
        · exact .inl ⟨other, List.mem_cons_of_mem _ hother, hline⟩
        · exact .inr ⟨block, mem_append_of_mem_closeBefore hblock, heq⟩

/-- Every line of a run is as deep as its node. -/
theorem depth_of_mem_written {options : Options} {stack nodes : List Node} {takesOver : Bool}
    {line : Line} (h : line ∈ written options stack takesOver nodes) :
    line.depth = if line.closes then line.origin.depth else ownDepth line.origin := by
  rcases mem_written h with ⟨node, -, next, hown⟩ | ⟨block, -, rfl⟩
  · obtain ⟨body, -, rfl⟩ := Option.map_eq_some_iff.mp hown
    rfl
  · rfl

end SlimTemplate.Erb
