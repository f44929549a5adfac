import SlimTemplate.Diff.Matches

/-!
Unified diffs: the differences of two texts with a few lines of context around each.
-/

namespace SlimTemplate.Diff

/-- Lines `oldStart` to `oldEnd` of the old text, and what takes their place in the new one. -/
structure Span where
  same : Bool
  oldStart : Nat
  oldEnd : Nat
  newStart : Nat
  newEnd : Nat
  deriving DecidableEq, Repr

/-- The spans from the given positions on: equal ones, and what lies between them. -/
def spansFrom (oldSize newSize : Nat) : (i j : Nat) → List Match → List Span
  | i, j, [] => if i < oldSize || j < newSize then [⟨false, i, oldSize, j, newSize⟩] else []
  | i, j, m :: rest =>
      let gap := if i < m.left || j < m.right then [Span.mk false i m.left j m.right] else []
      let oldEnd := m.left + m.size
      let newEnd := m.right + m.size
      gap ++ ⟨true, m.left, oldEnd, m.right, newEnd⟩ :: spansFrom oldSize newSize oldEnd newEnd rest

/-- The number of lines shown before and after a difference. -/
def context : Nat := 3

namespace Span

/-- The last lines of a span, as many as context needs. -/
def ending (s : Span) : Span :=
  { s with
    oldStart := max s.oldStart (s.oldEnd - context)
    newStart := max s.newStart (s.newEnd - context) }

/-- The first lines of a span, as many as context needs. -/
def beginning (s : Span) : Span :=
  { s with
    oldEnd := min s.oldEnd (s.oldStart + context)
    newEnd := min s.newEnd (s.newStart + context) }

end Span

def trimFirst : List Span → List Span
  | s :: rest => (if s.same then s.ending else s) :: rest
  | [] => []

def trimLast : List Span → List Span
  | [] => []
  | [s] => [if s.same then s.beginning else s]
  | s :: rest => s :: trimLast rest

/-- Cuts spans into hunks in the middle of long equal ones. -/
def hunksFrom (hunk : List Span) : List Span → List (List Span)
  | [] => if hunk.any (!·.same) then [hunk] else []
  | s :: rest =>
      if s.same && 2 * context < s.oldEnd - s.oldStart then
        (hunk ++ [s.beginning]) :: hunksFrom [s.ending] rest
      else hunksFrom (hunk ++ [s]) rest

/-- A range of lines: the first, and the number unless it is one. An empty range names the line
before it. -/
def rangeText (first last : Nat) : String :=
  if last - first == 1 then toString (first + 1)
  else if last - first == 0 then toString first ++ ",0"
  else toString (first + 1) ++ "," ++ toString (last - first)

def slice (lines : List String) (first last : Nat) : List String :=
  (lines.drop first).take (last - first)

def spanText (old new : List String) (s : Span) : List String :=
  if s.same then (slice old s.oldStart s.oldEnd).map (" " ++ ·)
  else
    (slice old s.oldStart s.oldEnd).map ("-" ++ ·) ++ (slice new s.newStart s.newEnd).map ("+" ++ ·)

def hunkText (old new : List String) (hunk : List Span) : List String :=
  match hunk.head?, hunk.getLast? with
  | some first, some last =>
      ("@@ -" ++ rangeText first.oldStart last.oldEnd ++ " +" ++
        rangeText first.newStart last.newEnd ++ " @@") :: hunk.flatMap (spanText old new)
  | _, _ => []

/-- The lines of a unified diff of two texts with the given names; none if they are equal. -/
def unified (oldName newName : String) (old new : List String) : List String :=
  let spans := spansFrom old.length new.length 0 0 (matchingBlocks old new)
  match hunksFrom [] (trimLast (trimFirst spans)) with
  | [] => []
  | hunks => ("--- " ++ oldName) :: ("+++ " ++ newName) :: hunks.flatMap (hunkText old new)

end SlimTemplate.Diff
