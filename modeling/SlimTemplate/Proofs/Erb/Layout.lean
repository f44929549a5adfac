import SlimTemplate.Proofs.Erb.Run

/-!
Proper layout of code lines. Whatever opens a block has a body, or is followed by a continuation
that has one; a continuation has a block to continue; and nothing else has a body or ends a block.
Whether a continuation finds a block is asked of the writer itself, at the moment when it comes to
that line.
-/

namespace SlimTemplate.Erb

open Slim (Node)

/-- The writer when it comes to the node `next` and has closed nothing for it yet. The nodes
written so far are given last first. -/
def reached (options : Options) :
    (earlier : List Node) → (next : Option Node) → Except Overflow Writer
  | [], _ => .ok {}
  | node :: earlier, next => do
      let writer ← reached options earlier (some node)
      (writer.closeTo node.depth (some node)).write options node next

/-- Whether a continuation finds an open block of code at exactly its own depth. -/
def findsBlock (options : Options) (earlier : List Node) (node : Node) : Bool :=
  match reached options earlier (some node) with
  | .ok writer => writer.stack.any fun block => isCode block && block.depth == node.depth
  | .error _ => false

def isOpener (node : Node) : Bool :=
  match node.construct with
  | .statement code => statementRole code == .opens
  | .expression code => endsInDo code
  | _ => false

/-- Whether a node is followed at once by a continuation at its own depth that has a body, as a
`case` is by its first `when`. -/
def isContinued (node : Node) : List Node → Bool
  | [] => false
  | next :: after =>
      isContinuation next && next.depth == node.depth && isNested next after.head?

/-- Whether the last node opens a block whose body comes only after a continuation that follows. -/
def isPending (earlier after : List Node) : Bool :=
  earlier.head?.any fun previous => isOpener previous && isContinued previous after

/-- Whether a line is laid out properly between the nodes before it, last first, and those after
it. -/
def isProper (options : Options) (earlier : List Node) (node : Node) (after : List Node) : Bool :=
  match node.construct with
  | .tag _ _ inline => inline.all fun part => !(part.kind == .expression && endsInDo part.content)
  | .expression code => !endsInDo code || isNested node after.head? || isContinued node after
  | .statement code =>
      match statementRole code with
      | .opens => isNested node after.head? || isContinued node after
      | .middle => isPending earlier (node :: after) || findsBlock options earlier node
      | .plain => !isNested node after.head?
      | .closes => false
  | _ => true

def isLaidOutFrom (options : Options) (earlier : List Node) : List Node → Bool
  | [] => true
  | node :: after =>
      isProper options earlier node after && isLaidOutFrom options (node :: earlier) after

def isLaidOut (options : Options) (nodes : List Node) : Bool :=
  isLaidOutFrom options [] nodes

/-- A whole run comes to every node with the writer that is reached there. -/
theorem writeAll_reached {options : Options} {earlier : List Node} {node : Node} {writer : Writer}
    (h : reached options earlier (some node) = .ok writer) (after : List Node) :
    ({} : Writer).writeAll options (earlier.reverse ++ node :: after) =
      (writer.closeTo node.depth (some node)).writeAll options (node :: after) := by
  induction earlier generalizing node writer after with
  | nil =>
      cases h
      rfl
  | cons previous earlier ih =>
      cases hprevious : reached options earlier (some previous) with
      | error e =>
          rw [reached, hprevious] at h
          cases h
      | ok before =>
          rw [reached, hprevious] at h
          change Writer.write options (before.closeTo previous.depth (some previous)) previous
            (some node) = .ok writer at h
          rw [List.reverse_cons, List.append_assoc, List.singleton_append,
            ih hprevious (node :: after), Writer.writeAll]
          simp only [List.head?_cons, h]

/-- Only a continuation takes a block over. -/
theorem closeBlocks_continuation {depth : Int} {next : Option Node} {stack : List Node}
    (h : (closeBlocks depth next stack).2.2 = true) : next.any isContinuation = true := by
  induction stack with
  | nil => cases h
  | cons block outer ih =>
      simp only [closeBlocks] at h
      split at h
      · cases h
      · split at h
        · rename_i htaken
          exact (Bool.and_eq_true_iff.mp htaken).2
        · exact ih h

/-- A continuation takes over the block of code at its own depth, if there is one. -/
theorem closeBlocks_taken {depth : Int} {next : Option Node} {stack : List Node} {block : Node}
    (hnested : Nested stack) (hnext : next.any isContinuation = true) (hmem : block ∈ stack)
    (hcode : isCode block = true) (hdepth : block.depth = depth) :
    (closeBlocks depth next stack).2.2 = true := by
  induction stack with
  | nil => cases hmem
  | cons top outer ih =>
      obtain ⟨htop, houter⟩ := List.pairwise_cons.mp hnested
      have hge : ¬ top.depth < depth := by
        cases List.mem_cons.mp hmem with
        | inl heq => exact heq ▸ Int.not_lt.mpr (Int.le_of_eq hdepth.symm)
        | inr hmem => exact Int.not_lt.mpr (hdepth ▸ Int.le_of_lt (htop block hmem))
      simp only [closeBlocks, hge, ite_false]
      split
      · rfl
      · rename_i hnot
        cases List.mem_cons.mp hmem with
        | inl heq => exact absurd (by simp [← heq, hcode, hdepth, hnext]) hnot
        | inr hmem => exact ih houter hmem

/-- The stack with which a run comes to a node once blocks are closed for it, and whether the node
takes one over. -/
def Arrives (options : Options) (earlier : List Node) (next : Option Node) (stack : List Node)
    (takesOver : Bool) : Prop :=
  ∃ writer, reached options earlier next = .ok writer ∧ writer.continuing = false ∧
    Nested writer.stack ∧ (closeBefore next writer.stack).2 = (stack, takesOver)

theorem arrives_first (options : Options) (next : Option Node) :
    Arrives options [] next [] false := by
  refine ⟨{}, rfl, rfl, List.Pairwise.nil, ?_⟩
  cases next with
  | none | some node => rfl

section Arrives

variable {options : Options} {earlier stack : List Node} {node : Node} {takesOver : Bool}

theorem Arrives.nested (h : Arrives options earlier (some node) stack takesOver) :
    Nested stack := by
  obtain ⟨writer, -, -, hnested, hclosed⟩ := h
  have hstack : Nested (closeBefore (some node) writer.stack).2.1 := closeBlocks_nested hnested
  rwa [hclosed] at hstack

theorem Arrives.encloses (h : Arrives options earlier (some node) stack takesOver) :
    Encloses stack node.depth := by
  obtain ⟨writer, -, -, hnested, hclosed⟩ := h
  have hstack : Encloses (closeBefore (some node) writer.stack).2.1 node.depth :=
    closeBlocks_encloses hnested
  rwa [hclosed] at hstack

/-- Writing a node leads to the next one. -/
theorem Arrives.next (h : Arrives options earlier (some node) stack takesOver)
    (hfits : overflows options node = false) (next : Option Node) :
    Arrives options (node :: earlier) next
      (closeBefore next (pushBlock options takesOver node next stack)).2.1
      (closeBefore next (pushBlock options takesOver node next stack)).2.2 := by
  have hpushed : Nested (pushBlock options takesOver node next stack) :=
    pushBlock_nested h.nested h.encloses
  obtain ⟨writer, hreached, hcontinuing, -, hclosed⟩ := h
  have hstack : (closeBlocks node.depth (some node) writer.stack).2.1 = stack :=
    congrArg Prod.fst hclosed
  have htaken : (closeBlocks node.depth (some node) writer.stack).2.2 = takesOver :=
    congrArg Prod.snd hclosed
  refine ⟨⟨(writer.closeTo node.depth (some node)).lines ++
    (ownLine? options node next).toList,
    pushBlock options takesOver node next stack, false⟩, ?_, rfl, hpushed, rfl⟩
  rw [reached, hreached]
  change Writer.write options (writer.closeTo node.depth (some node)) node next = _
  simp only [Writer.write, hfits, Bool.false_eq_true, ite_false, Writer.closeTo, hcontinuing,
    Bool.false_or, hstack, htaken, pushBlock]

theorem Arrives.not_takesOver (h : Arrives options earlier (some node) stack takesOver)
    (hnode : isContinuation node = false) : takesOver = false := by
  obtain ⟨writer, -, -, -, hclosed⟩ := h
  cases takesOver with
  | false => rfl
  | true =>
      have htaken : (closeBlocks node.depth (some node) writer.stack).2.2 = true :=
        congrArg Prod.snd hclosed
      have hcontinuation : isContinuation node = true := closeBlocks_continuation htaken
      rw [hcontinuation] at hnode
      cases hnode

/-- A continuation that finds a block takes it over. -/
theorem Arrives.takesOver_of_findsBlock (h : Arrives options earlier (some node) stack takesOver)
    (hnode : isContinuation node = true) (hfinds : findsBlock options earlier node = true) :
    takesOver = true := by
  obtain ⟨writer, hreached, -, hnested, hclosed⟩ := h
  rw [findsBlock, hreached] at hfinds
  obtain ⟨block, hmem, hblock⟩ := List.any_eq_true.mp hfinds
  simp only [Bool.and_eq_true, beq_iff_eq] at hblock
  have htaken : (closeBlocks node.depth (some node) writer.stack).2.2 = true :=
    closeBlocks_taken hnested hnode hmem hblock.1 hblock.2
  exact (congrArg Prod.snd hclosed).symm.trans htaken

end Arrives

end SlimTemplate.Erb
