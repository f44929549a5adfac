import SlimTemplate.Proofs.Erb.Run

/-!
The tree that the depths of a list of nodes stand for, written out by recursion: a node, its body,
its closing line, and the nodes after the body. The body of a node is the longest run of deeper
nodes behind it. Main statement: the writer, which keeps a stack and looks one node ahead, writes
exactly the lines of this rendering.
-/

namespace SlimTemplate.Erb

open Slim (Node)

/-- The longest run of nodes that lie deeper than a node. -/
def bodyOf (node : Node) (rest : List Node) : List Node :=
  rest.takeWhile (node.depth < ·.depth)

def afterBody (node : Node) (rest : List Node) : List Node :=
  rest.dropWhile (node.depth < ·.depth)

/-- Whether a node opens a block, by its body alone. A statement that takes over a block always
does. -/
def opensTree (options : Options) (takesOver : Bool) (node : Node) (body : List Node) : Bool :=
  match node.construct with
  | .tag _ _ inline => inline.isEmpty && !body.isEmpty
  | .statement _ => options.closeStatements && (!body.isEmpty || takesOver)
  | .expression code => options.closeStatements && endsInDo code && !body.isEmpty
  | _ => false

def isTakenOver (node : Node) (after : List Node) : Bool :=
  isCode node && after.head?.any fun next => next.depth == node.depth && isContinuation next

def closingLines (node : Node) (after : List Node) : List Line :=
  if isTakenOver node after then [] else [closerLine node]

/-- The lines of the tree of a list of nodes, whose first node may take over a block. -/
def treeLines (options : Options) (takesOver : Bool) (nodes : List Node) : List Line :=
  match nodes with
  | [] => []
  | node :: rest =>
      let body := bodyOf node rest
      let after := afterBody node rest
      let own := (ownLine? options node body.head?).toList
      if opensTree options takesOver node body then
        own ++ treeLines options false body ++ closingLines node after ++
          treeLines options (isTakenOver node after) after
      else own ++ treeLines options false rest
termination_by nodes.length
decreasing_by
  · exact Nat.lt_succ_of_le (List.takeWhile_sublist _).length_le
  · exact Nat.lt_succ_of_le (List.dropWhile_sublist _).length_le
  · exact Nat.lt_succ_self _

@[simp] theorem treeLines_nil (options : Options) (takesOver : Bool) :
    treeLines options takesOver [] = [] := by
  rw [treeLines]

/-! Runs of deeper nodes. A node inside a block has a body that ends within the block. -/

section Runs

variable {α : Type} {p q : α → Bool} (himp : ∀ a, p a = true → q a = true)
include himp

theorem takeWhile_takeWhile_of_imp (l : List α) :
    (l.takeWhile q).takeWhile p = l.takeWhile p := by
  induction l with
  | nil => rfl
  | cons a l ih =>
      cases hp : p a with
      | true => simp [himp a hp, hp, ih]
      | false => cases hq : q a <;> simp [hp, hq]

theorem dropWhile_takeWhile_of_imp (l : List α) :
    (l.takeWhile q).dropWhile p = (l.dropWhile p).takeWhile q := by
  induction l with
  | nil => rfl
  | cons a l ih =>
      cases hp : p a with
      | true => simp [himp a hp, hp, ih]
      | false => cases hq : q a <;> simp [hp, hq]

theorem dropWhile_dropWhile_of_imp (l : List α) :
    (l.dropWhile p).dropWhile q = l.dropWhile q := by
  induction l with
  | nil => rfl
  | cons a l ih =>
      cases hp : p a with
      | true => simp [himp a hp, hp, ih]
      | false => simp [hp]

end Runs

section Bodies

variable {block node : Node} (hdepth : block.depth < node.depth)
include hdepth

theorem deeper_trans (other : Node) :
    decide (node.depth < other.depth) = true → decide (block.depth < other.depth) = true := by
  simp only [decide_eq_true_eq]
  omega

theorem bodyOf_bodyOf (rest : List Node) : bodyOf node (bodyOf block rest) = bodyOf node rest :=
  takeWhile_takeWhile_of_imp (deeper_trans hdepth) rest

theorem afterBody_bodyOf (rest : List Node) :
    afterBody node (bodyOf block rest) = bodyOf block (afterBody node rest) :=
  dropWhile_takeWhile_of_imp (deeper_trans hdepth) rest

theorem afterBody_afterBody (rest : List Node) :
    afterBody block (afterBody node rest) = afterBody block rest :=
  dropWhile_dropWhile_of_imp (deeper_trans hdepth) rest

/-- The end of the surrounding block takes nothing over: what follows it is less deep. -/
theorem isTakenOver_bodyOf (after : List Node) :
    isTakenOver node (bodyOf block after) = isTakenOver node after := by
  cases after with
  | nil => rfl
  | cons next rest =>
      by_cases hnext : block.depth < next.depth
      · simp [isTakenOver, bodyOf, hnext]
      · have hne : (next.depth == node.depth) = false := beq_false_of_ne (by omega)
        simp [isTakenOver, bodyOf, hnext, hne]

end Bodies

theorem isNested_eq_bodyOf (node : Node) (rest : List Node) :
    isNested node rest.head? = !(bodyOf node rest).isEmpty := by
  cases rest with
  | nil => rfl
  | cons next rest =>
      by_cases hnext : node.depth < next.depth <;> simp [isNested, bodyOf, hnext]

/-- The first node of the body says as much as the next node. -/
theorem isNested_head?_bodyOf (node : Node) (rest : List Node) :
    isNested node (bodyOf node rest).head? = isNested node rest.head? := by
  cases rest with
  | nil => rfl
  | cons next rest =>
      by_cases hnext : node.depth < next.depth <;> simp [isNested, bodyOf, hnext]

/-- A node's own line depends on what follows only in whether it is nested. -/
theorem ownLine?_congr (options : Options) (node : Node) {next other : Option Node}
    (h : isNested node next = isNested node other) :
    ownLine? options node next = ownLine? options node other := by
  simp only [ownLine?, ownBody?, h]

theorem opensTree_eq (options : Options) (takesOver : Bool) (node : Node) (rest : List Node) :
    opensTree options takesOver node (bodyOf node rest) =
      opensBlock options takesOver node rest.head? := by
  cases hconstruct : node.construct <;>
    simp only [opensTree, opensBlock, hconstruct, isNested_eq_bodyOf]

/-- The rendering of a list, with the writer's own tests: what the next node shows of the body is
all that is needed for a line. -/
theorem treeLines_cons (options : Options) (takesOver : Bool) (node : Node) (rest : List Node) :
    treeLines options takesOver (node :: rest) =
      (ownLine? options node rest.head?).toList ++
        if opensBlock options takesOver node rest.head? then
          treeLines options false (bodyOf node rest) ++ closingLines node (afterBody node rest) ++
            treeLines options (isTakenOver node (afterBody node rest)) (afterBody node rest)
        else treeLines options false rest := by
  rw [treeLines]
  simp only [opensTree_eq, ownLine?_congr options node (isNested_head?_bodyOf node rest)]
  split <;> simp only [List.append_assoc]

/-- What is still to be rendered while blocks are open: the rest of the body of each, its closing
line, and so on outwards. -/
def pendingLines (options : Options) : List Node → Bool → List Node → List Line
  | [], takesOver, nodes => treeLines options takesOver nodes
  | block :: outer, takesOver, nodes =>
      treeLines options takesOver (bodyOf block nodes) ++
        closingLines block (afterBody block nodes) ++
        pendingLines options outer (isTakenOver block (afterBody block nodes))
          (afterBody block nodes)

/-- Writing a node is the first step of what is pending, and its block is pending from then on. -/
theorem pendingLines_cons (options : Options) (stack : List Node) (takesOver : Bool) (node : Node)
    (rest : List Node) (hstack : Encloses stack node.depth) :
    pendingLines options stack takesOver (node :: rest) =
      (ownLine? options node rest.head?).toList ++
        pendingLines options (pushBlock options takesOver node rest.head? stack) false rest := by
  cases stack with
  | nil =>
      simp only [pendingLines, treeLines_cons, pushBlock]
      split <;> rfl
  | cons block outer =>
      have hdepth : block.depth < node.depth := hstack block List.mem_cons_self
      have hbody : bodyOf block (node :: rest) = node :: bodyOf block rest := by
        simp [bodyOf, hdepth]
      have hafter : afterBody block (node :: rest) = afterBody block rest := by
        simp [afterBody, hdepth]
      have hnested : isNested node (bodyOf block rest).head? = isNested node rest.head? := by
        rw [isNested_eq_bodyOf, isNested_eq_bodyOf, bodyOf_bodyOf hdepth]
      have hopens : opensBlock options takesOver node (bodyOf block rest).head? =
          opensBlock options takesOver node rest.head? := by
        simp only [opensBlock, hnested]
      simp only [pendingLines, hbody, hafter, treeLines_cons, hopens,
        ownLine?_congr options node hnested, pushBlock]
      split
      · simp only [pendingLines, closingLines, bodyOf_bodyOf hdepth, afterBody_bodyOf hdepth,
          isTakenOver_bodyOf hdepth, afterBody_afterBody hdepth, List.append_assoc]
      · simp only [pendingLines, List.append_assoc]

/-- Blocks that the next node ends have no body left, so their closing lines come first. -/
theorem pendingLines_closeBlocks (options : Options) (stack : List Node) (next : Node)
    (rest : List Node) :
    pendingLines options stack false (next :: rest) =
      (closeBlocks next.depth (some next) stack).1 ++
        pendingLines options (closeBlocks next.depth (some next) stack).2.1
          (closeBlocks next.depth (some next) stack).2.2 (next :: rest) := by
  induction stack with
  | nil => rfl
  | cons block outer ih =>
      by_cases hlt : block.depth < next.depth
      · simp only [closeBlocks, hlt, ite_true, List.nil_append]
      · have hbody : bodyOf block (next :: rest) = [] := by simp [bodyOf, hlt]
        have hafter : afterBody block (next :: rest) = next :: rest := by simp [afterBody, hlt]
        have htaken : isTakenOver block (next :: rest) =
            (isCode block && block.depth == next.depth && (some next).any isContinuation) := by
          simp [isTakenOver, Bool.and_assoc, BEq.comm]
        simp only [pendingLines, hbody, hafter, treeLines_nil, List.nil_append, closingLines,
          htaken, closeBlocks, hlt, ite_false]
        split
        · rename_i h
          simp only [h, List.nil_append]
        · rename_i h
          simp only [Bool.eq_false_iff.mpr h, ih, List.cons_append, List.nil_append]

/-- After the last node all that is pending is to close the blocks. -/
theorem pendingLines_nil (options : Options) (stack : List Node) (takesOver : Bool)
    (hdepth : ∀ block ∈ stack, 0 ≤ block.depth) :
    pendingLines options stack takesOver [] = (closeBlocks 0 none stack).1 := by
  induction stack generalizing takesOver with
  | nil => rw [pendingLines, treeLines_nil]; rfl
  | cons block outer ih =>
      have hblock : ¬ block.depth < 0 := Int.not_lt.mpr (hdepth block List.mem_cons_self)
      have houter := ih false fun other hother => hdepth other (List.mem_cons_of_mem _ hother)
      simp [pendingLines, bodyOf, afterBody, isTakenOver, closingLines, closeBlocks, hblock, houter]

/-- The stack algorithm writes what is pending. -/
theorem written_eq_pendingLines (options : Options) (stack : List Node) (takesOver : Bool)
    (nodes : List Node) (hnested : Nested stack)
    (hstack : ∀ node ∈ nodes.head?, Encloses stack node.depth)
    (hdepth : ∀ node ∈ stack ++ nodes, 0 ≤ node.depth) :
    written options stack takesOver nodes = pendingLines options stack takesOver nodes := by
  induction nodes generalizing stack takesOver with
  | nil =>
      refine (pendingLines_nil options stack takesOver fun block hblock => ?_).symm
      exact hdepth block (List.mem_append_left _ hblock)
  | cons node rest ih =>
      have hnode : Encloses stack node.depth := hstack node rfl
      rw [written, pendingLines_cons options stack takesOver node rest hnode, List.append_assoc]
      congr 1
      generalize hpushed : pushBlock options takesOver node rest.head? stack = pushed
      have hpushedNested : Nested pushed := hpushed ▸ pushBlock_nested hnested hnode
      have hpushedDepth : ∀ block ∈ pushed, 0 ≤ block.depth := by
        intro block hblock
        cases mem_pushBlock (hpushed ▸ hblock) with
        | inl heq => exact hdepth block (by simp [heq])
        | inr hmem => exact hdepth block (List.mem_append_left _ hmem)
      cases rest with
      | nil => exact ih pushed false hpushedNested (by simp) (by simpa using hpushedDepth)
      | cons next tail =>
          rw [pendingLines_closeBlocks]
          congr 1
          refine ih _ _ (closeBlocks_nested hpushedNested) ?_ ?_
          · intro other hother
            cases hother
            exact closeBlocks_encloses hpushedNested
          · intro other hother
            cases List.mem_append.mp hother with
            | inl hmem => exact hpushedDepth other ((closeBlocks_suffix _ _ _).subset hmem)
            | inr hmem => exact hdepth other (by simp [hmem])

/-- Both the lines of a document and its text are those of the tree of its nodes, for nodes of any
kinds at any depths that can be written at all. -/
theorem document_eq_tree (options : Options) (nodes : List Node)
    (hdepth : ∀ node ∈ nodes, 0 ≤ node.depth) (hfits : ∀ node ∈ nodes, Fits options node) :
    documentLines options nodes = .ok (treeLines options false nodes) ∧
      documentText options nodes =
        .ok ("\n".intercalate
          ((treeLines options false nodes).map (·.render options.indentSize))) := by
  have hrun : written options [] false nodes = treeLines options false nodes :=
    written_eq_pendingLines options [] false nodes List.Pairwise.nil
      (fun _ _ => List.forall_mem_nil _) (by simpa using hdepth)
  have hover : ∀ node ∈ nodes, overflows options node = false :=
    fun node hnode => overflows_eq_false (hdepth node hnode) (hfits node hnode)
  rw [documentLines_eq options nodes hover, documentText_eq options nodes hover, writtenText, hrun]
  exact ⟨rfl, rfl⟩

/-- Ragged depths: a continuation with an empty body, and nodes that fall between the columns of the
blocks around them. -/
def raggedNodes : List Node :=
  [{ construct := .statement "if ready" }, { construct := .tag "ul" [] [], depth := 3 },
   { construct := .expression "form_for item do |f|", depth := 7 },
   { construct := .text "one", depth := 9 }, { construct := .tag "li" [] [], depth := 5 },
   { construct := .statement "else" }, { construct := .statement "ensure" },
   { construct := .tag "p" [] [], depth := 1 }, { construct := .text "two", depth := 4 },
   { construct := .doctype "!!!", depth := 2 }]

theorem document_eq_tree_raggedNodes :
    (∀ node ∈ raggedNodes, 0 ≤ node.depth) ∧ (∀ node ∈ raggedNodes, Fits {} node) ∧
      documentLines {} raggedNodes = .ok (treeLines {} false raggedNodes) :=
  have hdepth : ∀ node ∈ raggedNodes, 0 ≤ node.depth := by decide
  have hfits : ∀ node ∈ raggedNodes, Fits {} node := by decide
  ⟨hdepth, hfits, (document_eq_tree {} raggedNodes hdepth hfits).1⟩

end SlimTemplate.Erb
