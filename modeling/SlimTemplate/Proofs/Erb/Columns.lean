import Mathlib.Data.List.Forall2
import Mathlib.Order.Monotone.Basic
import SlimTemplate.Proofs.Erb.Relabelling
import SlimTemplate.Proofs.Erb.Tree

/-!
Columns and their order. The writer compares the depths of nodes and does nothing else with them
until a line is indented. So nodes that are moved to other columns in the same order, and written
with another width of indentation, have the same lines, each at the new column of its node.
-/

namespace SlimTemplate

namespace Slim

/-- The new column of a depth. What lies left of the margin stays. -/
def moveDepth (f : Nat → Nat) : Int → Int
  | .ofNat depth => f depth
  | .negSucc depth => .negSucc depth

def Inline.move (f : Nat → Nat) (part : Inline) : Inline :=
  { part with depth := moveDepth f part.depth }

def Construct.move (f : Nat → Nat) : Construct → Construct
  | .tag name attributes inline => .tag name attributes (inline.map (·.move f))
  | .text s => .text s
  | .statement s => .statement s
  | .expression s => .expression s
  | .comment s => .comment s
  | .doctype s => .doctype s

def Node.move (f : Nat → Nat) (node : Node) : Node :=
  { node with construct := node.construct.move f, depth := moveDepth f node.depth }

theorem moveDepth_lt_iff {f : Nat → Nat} (hf : StrictMono f) (a b : Int) :
    moveDepth f a < moveDepth f b ↔ a < b := by
  cases a with
  | ofNat a =>
      cases b with
      | ofNat b => exact Int.ofNat_lt.trans (hf.lt_iff_lt.trans Int.ofNat_lt.symm)
      | negSucc b => simp only [moveDepth, Int.ofNat_eq_natCast]; omega
  | negSucc a =>
      cases b with
      | ofNat b => simp only [moveDepth, Int.ofNat_eq_natCast]; omega
      | negSucc b => exact Iff.rfl

theorem moveDepth_neg_iff (f : Nat → Nat) (depth : Int) : moveDepth f depth < 0 ↔ depth < 0 := by
  cases depth with
  | ofNat depth => simp only [moveDepth, Int.ofNat_eq_natCast]; omega
  | negSucc depth => exact Iff.rfl

end Slim

namespace Erb

open Slim (Node)

def Options.indentedBy (options : Options) (size : Nat) (h : 0 < size) : Options :=
  { options with indentSize := size, indentSize_pos := h }

def spaces (n : Nat) : String :=
  String.ofList (List.replicate n ' ')

theorem relabels_move {f : Nat → Nat} (hf : StrictMono f) : Relabels (·.move f) where
  alike node := by
    obtain ⟨construct, _, _, _⟩ := node
    cases construct with
    | tag name attributes inline =>
        refine .tag ?_
        simp [InlineAlike, Slim.Inline.move]
    | text | statement | expression | comment | doctype => exact .same _
  less node other := Slim.moveDepth_lt_iff hf node.depth other.depth
  negative node := Slim.moveDepth_neg_iff f node.depth

/-- Nothing but the indentation depends on its width. -/
theorem written_indentedBy (options : Options) {size : Nat} (h : 0 < size) (stack : List Node)
    (takesOver : Bool) (nodes : List Node) :
    written (options.indentedBy size h) stack takesOver nodes =
      written options stack takesOver nodes := by
  induction nodes generalizing stack takesOver with
  | nil => rfl
  | cons node rest ih =>
      simp only [written, ih]
      rfl

def Line.isDoctype (line : Line) : Bool :=
  !line.closes && line.origin.construct.kind == .doctype

/-- Two lines with one body: each is indented by its own width for each column of one node, which
is at `f depth` for the second line where it is at `depth` for the first. -/
structure Moved (f : Nat → Nat) (size size' : Nat) (line line' : Line) : Prop where
  origin : line'.origin = line.origin.move f
  closes : line'.closes = line.closes
  doctype : line.isDoctype = true →
    line.render size = line.body ∧ line'.render size' = line.body
  indented : line.isDoctype = false → ∃ depth : Nat, line.origin.depth = depth ∧
    line.render size = spaces (size * depth) ++ line.body ∧
    line'.render size' = spaces (size' * f depth) ++ line.body

theorem Line.render_of_depth {line : Line} (depth : Nat) (h : line.depth = depth) (size : Nat) :
    line.render size = spaces (size * depth) ++ line.body := by
  rw [render, spaces, h, ← Int.natCast_mul, Int.toNat_natCast, Nat.mul_comm]

/-- A line that is as deep as its node has the column of the node, or none at all. -/
theorem Line.depth_eq (line : Line)
    (h : line.depth = if line.closes then line.origin.depth else ownDepth line.origin) :
    line.depth = if line.isDoctype then 0 else line.origin.depth := by
  rw [h, isDoctype]
  cases line.closes with
  | true => rfl
  | false =>
      obtain ⟨_, _, ⟨construct, _, _, _⟩, _⟩ := line
      cases construct <;> rfl

theorem isDoctype_move (f : Nat → Nat) (line : Line) :
    (line.relabel (·.move f)).isDoctype = line.isDoctype := by
  obtain ⟨_, _, ⟨construct, _, _, _⟩, _⟩ := line
  cases construct <;> rfl

theorem moved_relabel (f : Nat → Nat) (size size' : Nat) {line : Line}
    (hline : line.depth = if line.closes then line.origin.depth else ownDepth line.origin)
    (hdepth : 0 ≤ line.origin.depth) :
    Moved f size size' line (line.relabel (·.move f)) := by
  have hfirst := line.depth_eq hline
  have hsecond := (line.relabel (·.move f)).depth_eq rfl
  rw [isDoctype_move] at hsecond
  refine ⟨rfl, rfl, fun hdoctype => ?_, fun hdoctype => ?_⟩
  · rw [if_pos hdoctype] at hfirst hsecond
    exact ⟨Line.render_of_depth 0 hfirst size,
      Line.render_of_depth 0 hsecond size'⟩
  · rw [if_neg (by simp [hdoctype])] at hfirst hsecond
    obtain ⟨depth, hnode⟩ := Int.eq_ofNat_of_zero_le hdepth
    have hmoved : (line.origin.move f).depth = f depth := congrArg (Slim.moveDepth f) hnode
    exact ⟨depth, hnode, Line.render_of_depth depth (hfirst.trans hnode) size,
      Line.render_of_depth (f depth) (hsecond.trans hmoved) size'⟩

theorem origin_of_mem_written {options : Options} {stack nodes : List Node} {takesOver : Bool}
    {line : Line} (h : line ∈ written options stack takesOver nodes) :
    line.origin ∈ stack ++ nodes := by
  rcases mem_written h with ⟨node, hnode, next, hown⟩ | ⟨block, hblock, rfl⟩
  · obtain ⟨body, -, rfl⟩ := Option.map_eq_some_iff.mp hown
    exact List.mem_append_right stack hnode
  · exact hblock

/-- Nodes at other columns in the same order, indented by another width, are written with as many
lines and the same bodies. -/
theorem lines_move (options : Options) {size : Nat} (hsize : 0 < size) {f : Nat → Nat}
    (hf : StrictMono f) (nodes : List Node) (hdepth : ∀ node ∈ nodes, 0 ≤ node.depth)
    (hfits : ∀ node ∈ nodes, Fits options node)
    (hfits' : ∀ node ∈ nodes, Fits (options.indentedBy size hsize) (node.move f)) :
    ∃ lines lines', documentLines options nodes = .ok lines ∧
      documentLines (options.indentedBy size hsize) (nodes.map (·.move f)) = .ok lines' ∧
      documentText options nodes =
        .ok ("\n".intercalate (lines.map (·.render options.indentSize))) ∧
      documentText (options.indentedBy size hsize) (nodes.map (·.move f)) =
        .ok ("\n".intercalate (lines'.map (·.render size))) ∧
      List.Forall₂ (Moved f options.indentSize size) lines lines' := by
  have hover : ∀ node ∈ nodes, overflows options node = false := fun node hnode =>
    overflows_eq_false (hdepth node hnode) (hfits node hnode)
  have hover' : ∀ node ∈ nodes.map (·.move f),
      overflows (options.indentedBy size hsize) node = false := by
    intro moved hmoved
    obtain ⟨node, hnode, rfl⟩ := List.mem_map.mp hmoved
    refine overflows_eq_false (Int.not_lt.mp fun hneg => ?_) (hfits' node hnode)
    exact absurd ((relabels_move hf).negative node |>.mp hneg) (Int.not_lt.mpr (hdepth node hnode))
  have hrun : written (options.indentedBy size hsize) [] false (nodes.map (·.move f)) =
      (written options [] false nodes).map (·.relabel (·.move f)) := by
    rw [written_indentedBy]
    exact (relabels_move hf).written options [] false nodes
  refine ⟨_, _, documentLines_eq _ _ hover, documentLines_eq _ _ hover',
    documentText_eq _ _ hover, documentText_eq _ _ hover', ?_⟩
  rw [hrun, List.forall₂_map_right_iff, List.forall₂_same]
  intro line hline
  exact moved_relabel f _ _ (depth_of_mem_written hline)
    (hdepth line.origin (origin_of_mem_written hline))

theorem lines_move_raggedNodes :
    (∀ node ∈ raggedNodes, 0 ≤ node.depth) ∧ (∀ node ∈ raggedNodes, Fits {} node) ∧
      (∀ node ∈ raggedNodes, Fits (Options.indentedBy {} 2 (by decide)) (node.move (2 * · + 1))) ∧
      ∃ lines lines', documentLines {} raggedNodes = .ok lines ∧
        documentLines (Options.indentedBy {} 2 (by decide)) (raggedNodes.map (·.move (2 * · + 1))) =
          .ok lines' ∧
        lines'.map (fun line => (line.render 2).length - line.body.length) =
          [2, 14, 30, 38, 30, 22, 14, 2, 2, 6, 18, 0, 6, 2] ∧
        List.Forall₂ (Moved (2 * · + 1) 1 2) lines lines' := by
  have hf : StrictMono fun depth : Nat => 2 * depth + 1 := by
    intro depth other hlt
    dsimp only
    omega
  have hdepth : ∀ node ∈ raggedNodes, 0 ≤ node.depth := by decide
  have hfits : ∀ node ∈ raggedNodes, Fits {} node := by decide
  have hfits' : ∀ node ∈ raggedNodes,
      Fits (Options.indentedBy {} 2 (by decide)) (node.move (2 * · + 1)) := by decide
  have hindented : (documentLines (Options.indentedBy {} 2 (by decide))
      (raggedNodes.map (·.move (2 * · + 1)))).toOption.map
        (·.map fun line => (line.render 2).length - line.body.length) =
      some [2, 14, 30, 38, 30, 22, 14, 2, 2, 6, 18, 0, 6, 2] := by decide +kernel
  obtain ⟨lines, lines', hlines, hlines', -, -, hmoved⟩ :=
    lines_move {} (by decide : 0 < 2) hf raggedNodes hdepth hfits hfits'
  rw [hlines'] at hindented
  exact ⟨hdepth, hfits, hfits', lines, lines', hlines, hlines', Option.some.inj hindented, hmoved⟩

end Erb

end SlimTemplate
