import SlimTemplate.Proofs.Erb.Run

/-!
Nodes that are written alike. The writing of a list of nodes looks at the texts of the nodes and at
the order of their depths, and at nothing else, so a change of nodes that keeps these leads through
the same run, with the same lines.
-/

namespace SlimTemplate.Erb

open Slim (Node Inline Construct)

def InlineAlike (inline other : List Inline) : Prop :=
  inline.map (fun part => (part.kind, part.content)) =
    other.map (fun part => (part.kind, part.content))

inductive Alike : Construct → Construct → Prop
  | tag {name : String} {attributes : Slim.Attributes} {inline other : List Inline}
      (h : InlineAlike inline other) :
      Alike (.tag name attributes inline) (.tag name attributes other)
  | same (construct : Construct) : Alike construct construct

theorem InlineAlike.isEmpty {inline other : List Inline} (h : InlineAlike inline other) :
    inline.isEmpty = other.isEmpty := by
  have hlength := congrArg List.length h
  rw [List.length_map, List.length_map] at hlength
  rw [Bool.eq_iff_iff, List.isEmpty_iff_length_eq_zero, List.isEmpty_iff_length_eq_zero, hlength]

theorem InlineAlike.inlineText {inline other : List Inline} (h : InlineAlike inline other) :
    inlineText inline = inlineText other := by
  match inline, other, h with
  | [], [], _ => rfl
  | [⟨kind, content, _, _, _⟩], [⟨kind', content', _, _, _⟩], h =>
      cases h
      cases kind <;> rfl
  | _ :: _ :: _, _ :: _ :: _, _ => simp [Erb.inlineText]

section Alike

variable {node other : Node} (h : Alike node.construct other.construct)

include h

theorem isCode_of_alike : isCode node = isCode other := by
  obtain ⟨construct, _, _, _⟩ := node
  obtain ⟨construct', _, _, _⟩ := other
  cases h <;> rfl

theorem isContinuation_of_alike : isContinuation node = isContinuation other := by
  obtain ⟨construct, _, _, _⟩ := node
  obtain ⟨construct', _, _, _⟩ := other
  cases h <;> rfl

theorem closer_of_alike : closer node = closer other := by
  obtain ⟨construct, _, _, _⟩ := node
  obtain ⟨construct', _, _, _⟩ := other
  cases h <;> rfl

theorem ownDepth_of_alike (hdepth : node.depth = other.depth) :
    ownDepth node = ownDepth other := by
  rw [ownDepth, ownDepth, hdepth]
  obtain ⟨construct, _, _, _⟩ := node
  obtain ⟨construct', _, _, _⟩ := other
  cases h <;> rfl

theorem opensBlock_of_alike {next next' : Option Node}
    (hnested : isNested node next = isNested other next') (options : Options) (takesOver : Bool) :
    opensBlock options takesOver node next = opensBlock options takesOver other next' := by
  rw [opensBlock, opensBlock, hnested]
  obtain ⟨construct, _, _, _⟩ := node
  obtain ⟨construct', _, _, _⟩ := other
  cases h with
  | tag hinline => simp only [hinline.isEmpty]
  | same => rfl

theorem ownBody?_of_alike {next next' : Option Node}
    (hnested : isNested node next = isNested other next') (options : Options) :
    ownBody? options node next = ownBody? options other next' := by
  rw [ownBody?, ownBody?, hnested]
  obtain ⟨construct, _, _, _⟩ := node
  obtain ⟨construct', _, _, _⟩ := other
  cases h with
  | tag hinline => simp only [tagBody, hinline.isEmpty, hinline.inlineText]
  | same => rfl

end Alike

/-- A change of nodes that keeps their texts and the order of their depths, above and below zero. -/
structure Relabels (change : Node → Node) : Prop where
  alike : ∀ node, Alike (change node).construct node.construct
  less : ∀ node other, (change node).depth < (change other).depth ↔ node.depth < other.depth
  negative : ∀ node, (change node).depth < 0 ↔ node.depth < 0

def Line.relabel (change : Node → Node) (line : Line) : Line where
  depth := if line.closes then (change line.origin).depth else ownDepth (change line.origin)
  body := line.body
  origin := change line.origin
  closes := line.closes

section Relabels

variable {change : Node → Node} (h : Relabels change)

include h

theorem Relabels.isNested (node : Node) (next : Option Node) :
    isNested (change node) (next.map change) = isNested node next := by
  cases next with
  | none => rfl
  | some other => simp only [Erb.isNested, Option.map_some, Option.any_some, h.less]

theorem Relabels.ownLine? (options : Options) (node : Node) (next : Option Node) :
    ownLine? options (change node) (next.map change) =
      (ownLine? options node next).map (·.relabel change) := by
  rw [Erb.ownLine?, Erb.ownLine?, ownBody?_of_alike (h.alike node) (h.isNested node next)]
  cases ownBody? options node next with
  | none => rfl
  | some body => rfl

theorem Relabels.pushBlock (options : Options) (takesOver : Bool) (node : Node)
    (next : Option Node) (stack : List Node) :
    pushBlock options takesOver (change node) (next.map change) (stack.map change) =
      (pushBlock options takesOver node next stack).map change := by
  rw [Erb.pushBlock, Erb.pushBlock, opensBlock_of_alike (h.alike node) (h.isNested node next)]
  split <;> rfl

theorem Relabels.closerLine (node : Node) :
    closerLine (change node) = (closerLine node).relabel change := by
  rw [Erb.closerLine, closer_of_alike (h.alike node)]
  rfl

/-- Blocks are closed alike where depths compare alike. -/
theorem Relabels.closeBlocks {depth depth' : Int} {next : Option Node}
    (hless : ∀ block, (change block).depth < depth' ↔ block.depth < depth)
    (hsame : next.any isContinuation = true →
      ∀ block, (change block).depth = depth' ↔ block.depth = depth) (stack : List Node) :
    closeBlocks depth' (next.map change) (stack.map change) =
      ((closeBlocks depth next stack).1.map (·.relabel change),
        (closeBlocks depth next stack).2.1.map change, (closeBlocks depth next stack).2.2) := by
  have hnext : (next.map change).any isContinuation = next.any isContinuation := by
    cases next with
    | none => rfl
    | some other => exact isContinuation_of_alike (h.alike other)
  induction stack with
  | nil => rfl
  | cons block outer ih =>
      have htaken : (isCode (change block) && (change block).depth == depth' &&
          next.any isContinuation) =
            (isCode block && block.depth == depth && next.any isContinuation) := by
        rw [isCode_of_alike (h.alike block)]
        cases hcontinues : next.any isContinuation with
        | false => simp
        | true =>
            rw [show ((change block).depth == depth') = (block.depth == depth) from
              Bool.eq_iff_iff.mpr (by simpa using hsame hcontinues block)]
      simp only [List.map_cons, Erb.closeBlocks, hless, hnext, htaken]
      split
      · rfl
      · split
        · rfl
        · rw [ih, h.closerLine]
          rfl

theorem Relabels.closeBefore (next : Option Node) (stack : List Node) :
    closeBefore (next.map change) (stack.map change) =
      ((closeBefore next stack).1.map (·.relabel change),
        (closeBefore next stack).2.1.map change, (closeBefore next stack).2.2) := by
  cases next with
  | none => rfl
  | some node =>
      refine h.closeBlocks (fun block => h.less block node) (fun _ block => ?_) stack
      have hleft := h.less block node
      have hright := h.less node block
      omega

/-- A run over changed nodes goes like the run over the nodes. -/
theorem Relabels.written (options : Options) (stack : List Node) (takesOver : Bool)
    (nodes : List Node) :
    written options (stack.map change) takesOver (nodes.map change) =
      (written options stack takesOver nodes).map (·.relabel change) := by
  induction nodes generalizing stack takesOver with
  | nil =>
      have hnone : (none : Option Node).any isContinuation = true →
          ∀ block, (change block).depth = 0 ↔ block.depth = 0 :=
        fun hcontinues => by cases hcontinues
      exact congrArg Prod.fst (h.closeBlocks h.negative hnone stack)
  | cons node rest ih =>
      simp only [List.map_cons, Erb.written, List.head?_map, h.ownLine?, h.pushBlock,
        h.closeBefore, ih, List.map_append, Option.toList_map]

/-- Where no depth changes, the lines are the same as texts. -/
theorem Relabels.render (hdepth : ∀ node, (change node).depth = node.depth) (options : Options)
    (nodes : List Node) (size : Nat) :
    (Erb.written options [] false (nodes.map change)).map (·.render size) =
      (Erb.written options [] false nodes).map (·.render size) := by
  have hrun := h.written options [] false nodes
  rw [List.map_nil] at hrun
  rw [hrun, List.map_map]
  refine List.map_congr_left fun line hline => ?_
  have hline : (line.relabel change).depth = line.depth := by
    rw [depth_of_mem_written hline, Line.relabel, hdepth,
      ownDepth_of_alike (h.alike line.origin) (hdepth line.origin)]
  rw [Function.comp_apply, Line.render, hline]
  rfl

end Relabels

end SlimTemplate.Erb
