import SlimTemplate.Yaml.Problem

/-!
A position in a YAML text: what is still to be read, and where it stands.
-/

namespace SlimTemplate.Yaml

/-- The versions of the language, which differ in the types of plain scalars and in a few marks. -/
inductive Version where
  | v1_1
  | v1_2
  deriving DecidableEq, Repr

/-- The characters to come, with the index, line and column of the first of them. -/
structure Cursor where
  rest : List Char
  index : Nat := 0
  line : Nat := 0
  column : Nat := 0
  deriving DecidableEq, Repr

/-- The characters that may stand in a YAML text. -/
def isAllowed (c : Char) : Bool :=
  c == '\t' || c == '\n' || c == '\r' || (' ' ≤ c && c ≤ '~') || c == '\x85' ||
  ('\xa0' ≤ c && c.toNat != 0xfffe && c.toNat != 0xffff)

def isBreak (c : Char) : Bool :=
  c == '\n' || c == '\r' || c == '\x85' || c == '\u2028' || c == '\u2029'

/-- Whether a line ends here, or the whole text. -/
def endsLine (c : Option Char) : Bool :=
  c.all isBreak

/-- Whether a word ends here. -/
def endsToken (c : Option Char) : Bool :=
  c.all fun c => c == ' ' || c == '\t' || isBreak c

namespace Cursor

def peek (cursor : Cursor) (n : Nat := 0) : Option Char :=
  cursor.rest[n]?

/-- The position after the next character. Of all line breaks only the common ones start a new line
in the count of lines and columns. -/
def step (cursor : Cursor) : Cursor :=
  match cursor.rest with
  | [] => cursor
  | c :: rest =>
      if c == '\n' || (c == '\r' && rest.head? != some '\n') then
        ⟨rest, cursor.index + 1, cursor.line + 1, 0⟩
      else if c == '\ufeff' then ⟨rest, cursor.index + 1, cursor.line, cursor.column⟩
      else ⟨rest, cursor.index + 1, cursor.line, cursor.column + 1⟩

def forward (cursor : Cursor) : Nat → Cursor
  | 0 => cursor
  | n + 1 => cursor.step.forward n

/-- The characters to come as long as they pass a test, and the position after them. -/
def takeWhile (cursor : Cursor) (test : Char → Bool) : List Char × Cursor :=
  let taken := cursor.rest.takeWhile test
  (taken, cursor.forward taken.length)

def skipWhile (cursor : Cursor) (test : Char → Bool) : Cursor :=
  (cursor.takeWhile test).2

/-- The line break at the position, as text, and the position after it. -/
def lineBreak? (cursor : Cursor) : Option (Char × Cursor) :=
  match cursor.rest with
  | '\r' :: '\n' :: _ => some ('\n', cursor.forward 2)
  | c :: _ =>
      if c == '\r' || c == '\n' || c == '\x85' then some ('\n', cursor.step)
      else if isBreak c then some (c, cursor.step)
      else none
  | [] => none

/-- Whether a document marker of three characters stands here. -/
def atMarker (cursor : Cursor) (marker : Char) : Bool :=
  cursor.rest.take 3 == [marker, marker, marker] && endsToken (cursor.peek 3)

def atDocumentMarker (cursor : Cursor) : Bool :=
  cursor.atMarker '-' || cursor.atMarker '.'

end Cursor
end SlimTemplate.Yaml
