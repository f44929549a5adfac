/-!
Matching blocks of two texts. The longest run of lines that the texts have in common is found
first, then the same is done on both sides of it. In a long text, lines that occur too often start
no match, though a match may grow over them.
-/

namespace SlimTemplate.Diff

/-- A run of lines that stands at `left` in one text and at `right` in the other. -/
structure Match where
  left : Nat
  right : Nat
  size : Nat
  deriving DecidableEq, Repr

/-- A line of the second text, and whether a match may start with it. -/
abbrev Candidate := String × Bool

/-- Texts of at least this many lines have lines that occur too often. -/
def longText : Nat := 200

/-- The lines of the second text. In a long one, a line that makes up more than about a hundredth
of it starts no match. -/
def candidates (lines : List String) : List Candidate :=
  let limit := lines.length / 100 + 1
  lines.map fun line =>
    (line, lines.length < longText || lines.count line ≤ limit)

/-- The lengths of the common runs that end with the given line of the first text and each line of
the second, from the lengths for the line before. -/
def nextRow (line : String) (candidates : List Candidate) (row : List Nat) : List Nat :=
  List.zipWith (fun (other, starts) n => if starts && line == other then n + 1 else 0)
    candidates (0 :: row)

/-- The better of a match and the runs that end with line `i`; the earlier of two equally long. -/
def improve (i : Nat) (best : Match) (row : List Nat) : Match :=
  row.zipIdx.foldl
    (fun best (n, j) => if best.size < n then ⟨i + 1 - n, j + 1 - n, n⟩ else best) best

/-- The longest run among the lines that may start a match. -/
def longestRun (candidates : List Candidate) :
    (i : Nat) → (row : List Nat) → (best : Match) → List String → Match
  | _, _, best, [] => best
  | i, row, best, line :: rest =>
      let row := nextRow line candidates row
      longestRun candidates (i + 1) row (improve i best row) rest

/-- How many lines two texts have in common at their start. -/
def commonStart : List String → List String → Nat
  | a :: as, b :: bs => if a == b then commonStart as bs + 1 else 0
  | _, _ => 0

/-- The longest match, grown at both ends over lines of any kind. -/
def longestMatch (lines : List String) (candidates : List Candidate) : Match :=
  let run := longestRun candidates 0 (candidates.map fun _ => 0) ⟨0, 0, 0⟩ lines
  let others := candidates.map (·.1)
  let before := commonStart (lines.take run.left).reverse (others.take run.right).reverse
  let after := commonStart (lines.drop (run.left + run.size)) (others.drop (run.right + run.size))
  ⟨run.left - before, run.right - before, before + run.size + after⟩

/-- The matches of two texts that stand at `i` and `j` of larger ones, in order. -/
def matchesFrom (i j : Nat) (lines : List String) (candidates : List Candidate) : List Match :=
  match longestMatch lines candidates with
  | ⟨left, right, size⟩ =>
      if h : 0 < size ∧ left + size ≤ lines.length then
        have := h.1
        have := h.2
        matchesFrom i j (lines.take left) (candidates.take right) ++
          ⟨i + left, j + right, size⟩ ::
          matchesFrom (i + left + size) (j + right + size)
            (lines.drop (left + size)) (candidates.drop (right + size))
      else []
termination_by lines.length
decreasing_by
  · rw [List.length_take]; omega
  · rw [List.length_drop]; omega

/-- Joins matches that follow each other without a gap. -/
def joined : List Match → List Match
  | [] => []
  | m :: rest =>
      match joined rest with
      | n :: more =>
          if m.left + m.size = n.left ∧ m.right + m.size = n.right then
            ⟨m.left, m.right, m.size + n.size⟩ :: more
          else m :: n :: more
      | [] => [m]

/-- The matching blocks of two texts. -/
def matchingBlocks (old new : List String) : List Match :=
  joined (matchesFrom 0 0 old (candidates new))

end SlimTemplate.Diff
