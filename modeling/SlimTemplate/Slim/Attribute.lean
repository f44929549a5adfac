import SlimTemplate.Text.Blank
import SlimTemplate.Slim.Attributes
import SlimTemplate.Slim.Diagnostic

/-!
Explicit attributes on a tag line: a key, an equals sign and a value that is quoted or bare. The
text after the head of a tag is cut into assignments and the characters between them, leftmost
first and without overlap; what lies between is the inline content.
-/

namespace SlimTemplate.Slim

/-- The characters of attribute keys, class names and ids. -/
def isNameChar (c : Char) : Bool :=
  c.isAlphanum || c == '_' || c == '-'

/-- One attribute as it is written: its key, its value without quotes, whether the value was
quoted, and the whole of its text. -/
structure Assignment where
  key : List Char
  value : List Char
  quoted : Bool
  text : List Char
  deriving DecidableEq, Repr

def isQuote (c : Char) : Bool :=
  c == '"' || c == '\''

/-- Reads a value: up to the matching quote if the text starts with a quote that occurs again,
otherwise a run of characters that are not blank. Gives the value, whether it was quoted, and what
follows it. -/
def readValue? : List Char → Option (List Char × Bool × List Char)
  | [] => none
  | q :: cs =>
      if isQuote q && cs.contains q then
        some (cs.takeWhile (· != q), true, (cs.dropWhile (· != q)).drop 1)
      else if Text.isBlank q then none
      else some (q :: cs.takeWhile (!Text.isBlank ·), false, cs.dropWhile (!Text.isBlank ·))

/-- Reads an assignment that starts with the first character of the text, and what follows it. -/
def readAssignment? (cs : List Char) : Option (Assignment × List Char) :=
  let key := cs.takeWhile isNameChar
  if key.isEmpty then none
  else
    match Text.trimStart (cs.dropWhile isNameChar) with
    | '=' :: after =>
        match readValue? (Text.trimStart after) with
        | some (value, quoted, rest) =>
            some (⟨key, value, quoted, cs.take (cs.length - rest.length)⟩, rest)
        | none => none
    | _ => none

/-- A stretch of a tag line: one character of plain text, or an assignment. -/
inductive Piece where
  | char (c : Char)
  | assignment (a : Assignment)
  deriving DecidableEq, Repr

theorem length_trimStart_le (cs : List Char) : (Text.trimStart cs).length ≤ cs.length :=
  (List.dropWhile_sublist _).length_le

theorem readValue?_length {cs value rest : List Char} {quoted : Bool}
    (h : readValue? cs = some (value, quoted, rest)) : rest.length < cs.length := by
  cases cs with
  | nil => simp [readValue?] at h
  | cons q cs =>
      simp only [readValue?] at h
      split at h
      · simp only [Option.some.injEq, Prod.mk.injEq] at h
        have := (List.dropWhile_sublist (l := cs) (· != q)).length_le
        rw [← h.2.2, List.length_drop, List.length_cons]
        omega
      · split at h
        · simp at h
        · simp only [Option.some.injEq, Prod.mk.injEq] at h
          have := (List.dropWhile_sublist (l := cs) (!Text.isBlank ·)).length_le
          rw [← h.2.2, List.length_cons]
          omega

/-- An assignment takes up at least one character. -/
theorem readAssignment?_length {cs rest : List Char} {a : Assignment}
    (h : readAssignment? cs = some (a, rest)) : rest.length < cs.length := by
  simp only [readAssignment?] at h
  split at h
  · simp at h
  · split at h
    · rename_i after hafter
      split at h
      · rename_i value quoted rest' hvalue
        simp only [Option.some.injEq, Prod.mk.injEq] at h
        have h1 := readValue?_length hvalue
        have h2 := length_trimStart_le after
        have h3 := length_trimStart_le (cs.dropWhile isNameChar)
        have h4 := (List.dropWhile_sublist (l := cs) isNameChar).length_le
        rw [hafter, List.length_cons] at h3
        rw [← h.2]
        omega
      · simp at h
    · simp at h

/-- Cuts a text into assignments and the characters between them. -/
def pieces (cs : List Char) : List Piece :=
  match cs with
  | [] => []
  | c :: rest =>
      match h : readAssignment? (c :: rest) with
      | some (a, after) =>
          have : after.length < rest.length + 1 := readAssignment?_length h
          .assignment a :: pieces after
      | none => .char c :: pieces rest
termination_by cs.length

def Piece.assignment? : Piece → Option Assignment
  | .assignment a => some a
  | .char _ => none

def Piece.char? : Piece → Option Char
  | .char c => some c
  | .assignment _ => none

def assignments (ps : List Piece) : List Assignment :=
  ps.filterMap Piece.assignment?

/-- The text that is left when the assignments are taken out. -/
def leftover (ps : List Piece) : List Char :=
  Text.trim (ps.filterMap Piece.char?)

/-- The explicit attributes: every key at its first position with its last value. -/
def explicitAttributes (ps : List Piece) : Attributes :=
  .ofPairs ((assignments ps).map fun a => (String.ofList a.key, String.ofList a.value))

/-- A bare value that starts with a quote is suspicious. -/
def Assignment.suspicion? (a : Assignment) : Option Suspicion :=
  if !a.quoted && a.value.head?.any isQuote then
    some (.unterminatedValue (String.ofList a.text))
  else
    none

end SlimTemplate.Slim
