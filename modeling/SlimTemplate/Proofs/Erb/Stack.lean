import Mathlib.Logic.Relation
import SlimTemplate.Proofs.Erb.Run

/-!
The stack of open blocks in the course of a run. A run goes from point to point: a node is written,
then the blocks are closed that the next node ends, and in the end all that are left. What a point
adds to the stack and takes from it is read off the writers before and after. Main statement: at
every point the blocks lie in one another, and every block that was ever put on the stack is still
there, was taken over, or has its closing line at its own depth.
-/

namespace SlimTemplate.Erb

open Slim (Node)

/-- Whether a run is about to write a node, has just written one, or is over. -/
inductive Phase where
  | ready
  | written
  | ended
  deriving DecidableEq, Repr

/-- A point of a run: the writer, the nodes that are still to be written, and the blocks that have
been put on the stack and taken over so far, the last one first. -/
structure Point where
  phase : Phase := .ready
  writer : Writer := {}
  rest : List Node
  pushed : List Node := []
  takenOver : List Node := []
  deriving DecidableEq, Repr

def pushedBetween (before after : Writer) : List Node :=
  after.stack.take (after.stack.length - before.stack.length)

/-- The blocks that went from the stack after those for which closing lines were written. -/
def takenBetween (before after : Writer) : List Node :=
  (before.stack.take (before.stack.length - after.stack.length)).drop
    (after.lines.length - before.lines.length)

def Point.advance (point : Point) (phase : Phase) (after : Writer) (rest : List Node) : Point where
  phase := phase
  writer := after
  rest := rest
  pushed := pushedBetween point.writer after ++ point.pushed
  takenOver := takenBetween point.writer after ++ point.takenOver

inductive Advances (options : Options) : Point → Point → Prop
  | write {point : Point} {node : Node} {rest : List Node} {after : Writer}
      (hphase : point.phase = .ready) (hrest : point.rest = node :: rest)
      (h : point.writer.write options node rest.head? = .ok after) :
      Advances options point (point.advance .written after rest)
  | close {point : Point} {next : Node} {rest : List Node} (hphase : point.phase = .written)
      (hrest : point.rest = next :: rest) :
      Advances options point
        (point.advance .ready (point.writer.closeTo next.depth (some next)) point.rest)
  | finish {point : Point} (hphase : point.phase ≠ .ended) (hrest : point.rest = []) :
      Advances options point (point.advance .ended (point.writer.closeTo 0 none) [])

def ComesTo (options : Options) (nodes : List Node) : Point → Prop :=
  Relation.ReflTransGen (Advances options) { rest := nodes }

/-- The writing of a node puts its own block on the stack or leaves the stack alone, and writes no
closing line. A node that takes a block over is always put there. -/
structure Opens (node : Node) (before after : Writer) : Prop where
  stack : after.stack = before.stack ∨ after.stack = node :: before.stack
  takesOver : before.continuing = true → after.stack = node :: before.stack
  continuing : after.continuing = false
  closers : after.lines.filter (·.closes) = before.lines.filter (·.closes)

/-- The closing of blocks takes blocks from the top of the stack, the first ones with a closing line
for each; at most one more is taken over, by a continuation at its own depth. -/
structure ClosesTo (depth : Int) (next : Option Node) (before after : Writer)
    (closed taken : List Node) : Prop where
  stack : before.stack = closed ++ taken ++ after.stack
  lines : after.lines = before.lines ++ closed.map closerLine
  deep : ∀ block ∈ closed ++ taken, depth ≤ block.depth
  takenOver : ∀ block ∈ taken, isCode block = true ∧ block.depth = depth ∧
    ∃ node ∈ next, isContinuation node = true
  continuing : after.continuing = (before.continuing || !taken.isEmpty)
  single : taken.length ≤ 1

/-- What holds at every point of a run over a list of nodes. -/
structure Steady (options : Options) (nodes : List Node) (point : Point) : Prop where
  nested : Nested point.writer.stack
  encloses : point.phase = .ready →
    ∀ node ∈ point.rest.head?, Encloses point.writer.stack node.depth
  continuing : point.writer.continuing = true → point.phase = .ready ∧ ∃ block node,
    point.takenOver.head? = some block ∧ point.rest.head? = some node ∧ isCode block = true ∧
      isContinuation node = true ∧ node.depth = block.depth
  account : point.pushed.Perm
    ((point.writer.lines.filter (·.closes)).map (·.origin) ++ point.takenOver ++
      point.writer.stack)
  closers : ∀ line ∈ point.writer.lines, line.closes = true → line = closerLine line.origin
  pushed : ∀ block ∈ point.pushed, isCode block = true → options.closeStatements = true
  members : ∀ node ∈ point.pushed ++ point.rest, node ∈ nodes
  ended : point.phase = .ended → ∀ block ∈ point.writer.stack, block.depth < 0

section Steps

variable {options : Options} {before after : Writer} {node : Node} {next : Option Node}

theorem write_eq_ok (h : before.write options node next = .ok after) :
    after = ⟨before.lines ++ (ownLine? options node next).toList,
      pushBlock options before.continuing node next before.stack, false⟩ := by
  rw [Writer.write] at h
  split at h
  · cases h
  · exact (Except.ok.inj h).symm

theorem closes_of_mem_ownLine? {line : Line} (h : line ∈ (ownLine? options node next).toList) :
    line.closes = false := by
  obtain ⟨body, -, rfl⟩ := Option.map_eq_some_iff.mp (Option.mem_toList.mp h)
  rfl

/-- A continuation that takes a block over opens one, if blocks of code are ended at all. -/
theorem opensBlock_of_isContinuation (hclose : options.closeStatements = true)
    (h : isContinuation node = true) : opensBlock options true node next = true := by
  obtain ⟨construct, depth, line, raw⟩ := node
  cases construct with
  | statement code => simp [opensBlock, hclose]
  | tag | text | expression | comment | doctype => cases h

theorem closeStatements_of_opensBlock {takesOver : Bool} (hcode : isCode node = true)
    (h : opensBlock options takesOver node next = true) : options.closeStatements = true := by
  obtain ⟨construct, depth, line, raw⟩ := node
  cases construct with
  | statement | expression =>
      simp only [opensBlock, Bool.and_eq_true] at h
      simp [h]
  | tag | text | comment | doctype => cases hcode

theorem write_opens (h : before.write options node next = .ok after)
    (hcontinuing : before.continuing = true →
      options.closeStatements = true ∧ isContinuation node = true) :
    Opens node before after := by
  cases write_eq_ok h
  refine ⟨?_, fun hflag => ?_, rfl, ?_⟩
  · dsimp only [pushBlock]
    split
    · exact .inr rfl
    · exact .inl rfl
  · obtain ⟨hclose, hnode⟩ := hcontinuing hflag
    dsimp only [pushBlock]
    rw [hflag, opensBlock_of_isContinuation hclose hnode, if_pos rfl]
  · have hnone : (ownLine? options node next).toList.filter (·.closes) = [] := by
      rw [List.filter_eq_nil_iff]
      intro line hline
      simp [closes_of_mem_ownLine? hline]
    rw [List.filter_append, hnone, List.append_nil]

theorem closeTo_closesTo (before : Writer) (depth : Int) (next : Option Node) :
    ∃ closed taken, ClosesTo depth next before (before.closeTo depth next) closed taken := by
  obtain ⟨lines, stack, continuing⟩ := before
  suffices hsplit : ∃ closed taken,
      stack = closed ++ taken ++ (closeBlocks depth next stack).2.1 ∧
        (closeBlocks depth next stack).1 = closed.map closerLine ∧
        (∀ block ∈ closed ++ taken, depth ≤ block.depth) ∧
        (∀ block ∈ taken, isCode block = true ∧ block.depth = depth ∧
          ∃ node ∈ next, isContinuation node = true) ∧
        (closeBlocks depth next stack).2.2 = !taken.isEmpty ∧ taken.length ≤ 1 by
    obtain ⟨closed, taken, hstack, hlines, hdeep, htaken, hflag, hsingle⟩ := hsplit
    exact ⟨closed, taken, hstack, congrArg (lines ++ ·) hlines, hdeep, htaken,
      congrArg (continuing || ·) hflag, hsingle⟩
  induction stack with
  | nil => exact ⟨[], [], rfl, rfl, by simp, by simp, rfl, by simp⟩
  | cons block outer ih =>
      by_cases hlt : block.depth < depth
      · exact ⟨[], [], by simp [closeBlocks, hlt], by simp [closeBlocks, hlt], by simp, by simp,
          by simp [closeBlocks, hlt], by simp⟩
      have hdeep : depth ≤ block.depth := Int.not_lt.mp hlt
      by_cases htaken : (isCode block && block.depth == depth && next.any isContinuation) = true
      · have hresult : closeBlocks depth next (block :: outer) = ([], outer, true) := by
          rw [closeBlocks, if_neg hlt, if_pos htaken]
        simp only [Bool.and_eq_true, beq_iff_eq, Option.any_eq_true] at htaken
        obtain ⟨⟨hcode, hdepth⟩, node, hnext, hnode⟩ := htaken
        refine ⟨[], [block], by simp [hresult], by simp [hresult], by simpa using hdeep, ?_,
          by simp [hresult], by simp⟩
        intro other hother
        cases List.mem_singleton.mp hother
        exact ⟨hcode, hdepth, node, hnext, hnode⟩
      · obtain ⟨closed, taken, hstack, hlines, hall, hover, hflag, hsingle⟩ := ih
        have hresult : closeBlocks depth next (block :: outer) =
            (closerLine block :: (closeBlocks depth next outer).1,
              (closeBlocks depth next outer).2.1, (closeBlocks depth next outer).2.2) := by
          rw [closeBlocks, if_neg hlt, if_neg htaken]
        rw [hresult]
        refine ⟨block :: closed, taken, ?_, ?_, ?_, hover, hflag, hsingle⟩
        · rw [List.cons_append, List.cons_append, ← hstack]
        · rw [List.map_cons, hlines]
        · exact List.forall_mem_cons.mpr ⟨hdeep, hall⟩

variable {depth : Int} {closed taken : List Node}

theorem Opens.pushedBetween_eq (h : Opens node before after) :
    pushedBetween before after = [] ∧ after.stack = before.stack ∨
      pushedBetween before after = [node] ∧ after.stack = node :: before.stack := by
  rcases h.stack with hsame | hmore
  · exact .inl ⟨by simp [pushedBetween, hsame], hsame⟩
  · exact .inr ⟨by simp [pushedBetween, hmore], hmore⟩

theorem Opens.takenBetween_eq (h : Opens node before after) : takenBetween before after = [] := by
  have hlength : before.stack.length - after.stack.length = 0 := by
    rcases h.stack with hsame | hmore
    · rw [hsame, Nat.sub_self]
    · rw [hmore, List.length_cons]
      omega
  simp [takenBetween, hlength]

theorem ClosesTo.pushedBetween_eq (h : ClosesTo depth next before after closed taken) :
    pushedBetween before after = [] := by
  have hlength : after.stack.length - before.stack.length = 0 := by
    rw [h.stack, List.length_append]
    omega
  simp [pushedBetween, hlength]

theorem ClosesTo.takenBetween_eq (h : ClosesTo depth next before after closed taken) :
    takenBetween before after = taken := by
  have hstack : before.stack.length - after.stack.length = (closed ++ taken).length := by
    rw [h.stack, List.length_append]
    omega
  have hlines : after.lines.length - before.lines.length = closed.length := by
    rw [h.lines, List.length_append, List.length_map]
    omega
  rw [takenBetween, hstack, hlines, h.stack, List.take_left, List.drop_left]

theorem ClosesTo.filter_lines (h : ClosesTo depth next before after closed taken) :
    (after.lines.filter (·.closes)).map (·.origin) =
      (before.lines.filter (·.closes)).map (·.origin) ++ closed := by
  have hcloses : (closed.map closerLine).filter (·.closes) = closed.map closerLine := by
    rw [List.filter_eq_self]
    intro line hline
    obtain ⟨block, -, rfl⟩ := List.mem_map.mp hline
    rfl
  rw [h.lines, List.filter_append, hcloses, List.map_append, List.map_map]
  congr 1
  exact List.map_id closed

end Steps

section Run

variable {options : Options} {nodes : List Node} {point : Point}

/-- A block that is taken over is one of code, and then blocks of code are ended. -/
theorem Steady.takes_over (h : Steady options nodes point) {node : Node} {rest : List Node}
    (hrest : point.rest = node :: rest) (hflag : point.writer.continuing = true) :
    options.closeStatements = true ∧ isContinuation node = true := by
  obtain ⟨-, block, other, hblock, hother, hcode, hnode, -⟩ := h.continuing hflag
  have hmem : block ∈ point.pushed := by
    rw [h.account.mem_iff]
    simp [List.mem_of_head? hblock]
  rw [hrest] at hother
  cases hother
  exact ⟨h.pushed block hmem hcode, hnode⟩

/-- The block of code that a node opens is one that is ended. -/
theorem closeStatements_of_pushed {before after : Writer} {node : Node} {next : Option Node}
    (hwrite : before.write options node next = .ok after)
    (hmore : after.stack = node :: before.stack) (hcode : isCode node = true) :
    options.closeStatements = true := by
  rw [write_eq_ok hwrite] at hmore
  dsimp only [pushBlock] at hmore
  split at hmore
  · exact closeStatements_of_opensBlock hcode ‹_›
  · exact absurd hmore.symm (List.cons_ne_self _ _)

theorem Steady.write (h : Steady options nodes point) {node : Node} {rest : List Node}
    {after : Writer} (hphase : point.phase = .ready) (hrest : point.rest = node :: rest)
    (hwrite : point.writer.write options node rest.head? = .ok after) :
    Steady options nodes (point.advance .written after rest) := by
  have hopens := write_opens hwrite (h.takes_over hrest)
  have hafter := write_eq_ok hwrite
  have htaken := hopens.takenBetween_eq
  have hpushed := hopens.pushedBetween_eq
  constructor
  · have hstack := h.encloses hphase node (by simp [hrest])
    change Nested after.stack
    rw [hafter]
    exact pushBlock_nested h.nested hstack
  · intro hready
    cases hready
  · intro hflag
    cases hopens.continuing.symm.trans hflag
  · simp only [Point.advance, hopens.closers, htaken, List.nil_append]
    rcases hpushed with ⟨hnone, hstack⟩ | ⟨hone, hstack⟩
    · rw [hnone, hstack]
      exact h.account
    · rw [hone, hstack]
      exact (h.account.cons node).trans List.perm_middle.symm
  · intro line hline hcloses
    simp only [Point.advance, hafter, List.mem_append] at hline
    rcases hline with hold | hown
    · exact h.closers line hold hcloses
    · cases (closes_of_mem_ownLine? hown).symm.trans hcloses
  · intro block hblock hcode
    simp only [Point.advance, List.mem_append] at hblock
    rcases hpushed with ⟨hnone, -⟩ | ⟨hone, hstack⟩
    · exact h.pushed block (by simpa [hnone] using hblock) hcode
    · rcases hblock with hnew | hold
      · rw [hone, List.mem_singleton] at hnew
        subst hnew
        exact closeStatements_of_pushed hwrite hstack hcode
      · exact h.pushed block hold hcode
  · intro other hother
    apply h.members
    rw [hrest]
    rcases hpushed with ⟨hnone, -⟩ | ⟨hone, -⟩
    · simp only [Point.advance, hnone, List.nil_append, List.mem_append] at hother
      simp only [List.mem_append, List.mem_cons]
      exact hother.imp_right .inr
    · simp only [Point.advance, hone, List.mem_append, List.mem_singleton] at hother
      simp only [List.mem_append, List.mem_cons]
      tauto
  · intro hended
    cases hended

/-- Closing blocks keeps the account of a point at which no block waits to be taken over. -/
theorem Steady.close (h : Steady options nodes point) (hflag : point.writer.continuing = false)
    {depth : Int} {next : Option Node} {closed taken : List Node} {after : Writer} (phase : Phase)
    (hcloses : ClosesTo depth next point.writer after closed taken)
    (hnext : next = point.rest.head?) (hdepth : ∀ node ∈ next, depth = node.depth)
    (hready : next.isSome = true → phase = .ready)
    (hencloses : Encloses after.stack depth) (hended : phase = .ended → depth = 0) :
    Steady options nodes (point.advance phase after point.rest) := by
  have htaken := hcloses.takenBetween_eq
  have hpushed := hcloses.pushedBetween_eq
  have hsuffix : after.stack <:+ point.writer.stack := ⟨closed ++ taken, hcloses.stack.symm⟩
  constructor
  · exact h.nested.sublist hsuffix.sublist
  · intro _ node hnode
    rw [← hdepth node (hnext ▸ hnode)]
    exact hencloses
  · intro hflag'
    have hmany : taken ≠ [] := by
      rintro rfl
      simp [Point.advance, hcloses.continuing, hflag] at hflag'
    obtain ⟨block, more, rfl⟩ := List.exists_cons_of_ne_nil hmany
    obtain ⟨hcode, hblock, node, hnode, hcontinues⟩ := hcloses.takenOver block List.mem_cons_self
    refine ⟨hready (by simp [Option.mem_def.mp hnode]), block, node, ?_, ?_, hcode, hcontinues, ?_⟩
    · simp [Point.advance, htaken]
    · exact hnext ▸ hnode
    · rw [hblock, hdepth node hnode]
  · simp only [Point.advance, hpushed, htaken, List.nil_append, hcloses.filter_lines]
    refine h.account.trans (List.perm_iff_count.mpr fun node => ?_)
    rw [hcloses.stack]
    simp only [List.count_append]
    omega
  · intro line hline hline'
    simp only [Point.advance, hcloses.lines, List.mem_append] at hline
    rcases hline with hold | hnew
    · exact h.closers line hold hline'
    · obtain ⟨block, -, rfl⟩ := List.mem_map.mp hnew
      rfl
  · simpa only [Point.advance, hpushed, List.nil_append] using h.pushed
  · simpa only [Point.advance, hpushed, List.nil_append] using h.members
  · intro hphase
    rw [← hended hphase]
    exact hencloses

theorem Steady.not_continuing (h : Steady options nodes point)
    (hnot : point.phase ≠ .ready ∨ point.rest = []) : point.writer.continuing = false := by
  rw [← Bool.not_eq_true]
  intro hflag
  obtain ⟨hphase, block, node, -, hnode, -⟩ := h.continuing hflag
  rcases hnot with hnot | hnil
  · exact hnot hphase
  · rw [hnil] at hnode
    cases hnode

/-- Closing keeps a nested stack, of which only what lies around the given depth is left. -/
theorem closeTo_encloses {writer : Writer} (depth : Int) (next : Option Node)
    (h : Nested writer.stack) : Encloses (writer.closeTo depth next).stack depth :=
  closeBlocks_encloses h

theorem Steady.advances {after : Point} (h : Steady options nodes point)
    (hstep : Advances options point after) : Steady options nodes after := by
  cases hstep with
  | write hphase hrest hwrite => exact h.write hphase hrest hwrite
  | @close next rest hphase hrest =>
      obtain ⟨closed, taken, hcloses⟩ := closeTo_closesTo point.writer next.depth (some next)
      refine h.close (h.not_continuing (.inl (by simp [hphase]))) .ready hcloses (by simp [hrest])
        (by simp) (fun _ => rfl) (closeTo_encloses _ _ h.nested) ?_
      intro hended
      cases hended
  | finish hphase hrest =>
      obtain ⟨closed, taken, hcloses⟩ := closeTo_closesTo point.writer 0 none
      have hlast := h.close (h.not_continuing (.inr hrest)) .ended hcloses (by simp [hrest])
        (by simp) (by simp) (closeTo_encloses _ _ h.nested) (fun _ => rfl)
      rwa [hrest] at hlast

theorem steady_start (options : Options) (nodes : List Node) :
    Steady options nodes { rest := nodes } where
  nested := List.Pairwise.nil
  encloses _ _ _ := List.forall_mem_nil _
  continuing hflag := by cases hflag
  account := List.Perm.refl _
  closers := List.forall_mem_nil _
  pushed := List.forall_mem_nil _
  members _ := id
  ended hended := by cases hended

theorem ComesTo.steady (h : ComesTo options nodes point) : Steady options nodes point := by
  induction h with
  | refl => exact steady_start options nodes
  | tail _ hstep ih => exact ih.advances hstep

/-- From a point on, the points lead to where the writing of the remaining nodes ends. -/
theorem exists_last (options : Options) (point : Point) (hphase : point.phase = .ready) :
    ∃ last, Relation.ReflTransGen (Advances options) point last ∧
      last.writer = (point.writer.writeAll options point.rest).1 ∧
      ((point.writer.writeAll options point.rest).2 = .ok () ↔ last.phase = .ended) := by
  generalize hrest : point.rest = nodes
  induction nodes generalizing point with
  | nil =>
      refine ⟨_, .single (.finish (by simp [hphase]) hrest), rfl, ?_⟩
      exact iff_of_true rfl rfl
  | cons node rest ih =>
      rw [Writer.writeAll]
      cases hwrite : point.writer.write options node rest.head? with
      | error overflow => exact ⟨point, .refl, rfl, by simp [hphase]⟩
      | ok after =>
          have hfirst := Advances.write hphase hrest hwrite
          cases rest with
          | nil =>
              refine ⟨_, .tail (.single hfirst) (.finish (by simp [Point.advance]) rfl), rfl, ?_⟩
              exact iff_of_true rfl rfl
          | cons next rest =>
              obtain ⟨last, hlast, hwriter, hended⟩ :=
                ih ((point.advance .written after (next :: rest)).advance .ready
                  (after.closeTo next.depth (some next)) (next :: rest)) rfl rfl
              exact ⟨last, .head hfirst (.head (.close rfl rfl) hlast), hwriter, hended⟩

/-- Every block ever put on the stack counts once: closed, taken over or still open. -/
theorem Steady.length_pushed (h : Steady options nodes point) :
    point.pushed.length =
      point.writer.lines.countP (·.closes) + point.takenOver.length +
        point.writer.stack.length := by
  rw [h.account.length_eq, List.length_append, List.length_append, List.length_map,
    List.countP_eq_length_filter]

/-- Where no node has a negative depth, no block is left open. -/
theorem Steady.stack_eq_nil (h : Steady options nodes point) (hphase : point.phase = .ended)
    (hdepth : ∀ node ∈ nodes, 0 ≤ node.depth) : point.writer.stack = [] := by
  rw [List.eq_nil_iff_forall_not_mem]
  intro block hblock
  have hpushed : block ∈ point.pushed := by
    rw [h.account.mem_iff]
    exact List.mem_append_right _ hblock
  have hnode := h.members block (List.mem_append_left _ hpushed)
  exact absurd (hdepth block hnode) (Int.not_le.mpr (h.ended hphase block hblock))

end Run

/-- At every point of a run the stack is as `Steady` says and each block put on it is accounted for;
to write a node opens at most one block, inside blocks that all lie around it, and to close down to
a depth leaves the blocks around that depth. A run that writes all its nodes ends at a point with no
block of a depth of zero or more. -/
theorem stack_steady (options : Options) (nodes : List Node) :
    (∀ point, ComesTo options nodes point →
      Steady options nodes point ∧
      point.pushed.length =
        point.writer.lines.countP (·.closes) + point.takenOver.length +
          point.writer.stack.length ∧
      (∀ node rest after, point.phase = .ready → point.rest = node :: rest →
        point.writer.write options node rest.head? = .ok after →
          Encloses point.writer.stack node.depth ∧ Opens node point.writer after) ∧
      (∀ depth next, Encloses (point.writer.closeTo depth next).stack depth ∧
        ∃ closed taken,
          ClosesTo depth next point.writer (point.writer.closeTo depth next) closed taken)) ∧
    ∃ last, ComesTo options nodes last ∧
      last.writer = (({} : Writer).writeAll options nodes).1 ∧
      ((({} : Writer).writeAll options nodes).2 = .ok () ↔ last.phase = .ended) ∧
      (last.phase = .ended → (∀ block ∈ last.writer.stack, block.depth < 0) ∧
        ((∀ node ∈ nodes, 0 ≤ node.depth) → last.writer.stack = [])) := by
  constructor
  · intro point hpoint
    have hsteady := hpoint.steady
    refine ⟨hsteady, hsteady.length_pushed, ?_, fun depth next => ⟨?_, ?_⟩⟩
    · intro node rest after hphase hrest hwrite
      exact ⟨hsteady.encloses hphase node (by simp [hrest]),
        write_opens hwrite (hsteady.takes_over hrest)⟩
    · exact closeTo_encloses depth next hsteady.nested
    · exact closeTo_closesTo point.writer depth next
  · obtain ⟨last, hlast, hwriter, hended⟩ := exists_last options { rest := nodes } rfl
    have hsteady := ComesTo.steady hlast
    exact ⟨last, hlast, hwriter, hended, fun hphase =>
      ⟨hsteady.ended hphase, hsteady.stack_eq_nil hphase⟩⟩

/-- A condition with two branches inside an element at a negative depth. -/
def branchingNodes : List Node :=
  [{ construct := .tag "main" [] [], depth := -1 }, { construct := .statement "if ready" },
   { construct := .text "yes", depth := 1 }, { construct := .statement "else" },
   { construct := .text "no", depth := 1 }]

theorem stack_steady_branchingNodes :
    ∃ point, ComesTo {} branchingNodes point ∧ point.writer.continuing = true ∧
      point.takenOver.map (·.construct) = [.statement "if ready"] ∧
      Steady {} branchingNodes point ∧
      ∃ last, ComesTo {} branchingNodes last ∧ last.phase = .ended ∧
        last.writer.stack.map (·.depth) = [-1] ∧ ∀ block ∈ last.writer.stack, block.depth < 0 := by
  obtain ⟨hpoints, last, hlast, hwriter, hended, hleft⟩ := stack_steady {} branchingNodes
  have hpoint : ComesTo {} branchingNodes _ :=
    .head (.write rfl rfl rfl) <| .head (.close rfl rfl) <| .head (.write rfl rfl rfl) <|
      .head (.close rfl rfl) <| .head (.write rfl rfl rfl) <| .single (.close rfl rfl)
  refine ⟨_, hpoint, by decide, by decide, (hpoints _ hpoint).1, last, hlast, ?_⟩
  have hphase : last.phase = .ended := hended.mp (by decide)
  exact ⟨hphase, by rw [hwriter]; decide, (hleft hphase).1⟩

end SlimTemplate.Erb
