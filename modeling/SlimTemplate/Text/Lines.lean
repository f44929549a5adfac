/-!
Line structure of a text. A carriage return, a line feed and the two together all end a line;
a display text is also broken at the other separators of the Unicode line-breaking classes.
-/

namespace SlimTemplate.Text

/-- Every line end becomes a single line feed. -/
def unifyBreaks : List Char → List Char
  | '\r' :: '\n' :: cs => '\n' :: unifyBreaks cs
  | '\r' :: cs => '\n' :: unifyBreaks cs
  | c :: cs => c :: unifyBreaks cs
  | [] => []

/-- The lines of a text whose line ends are line feeds; a text has one line more than it has
line feeds. -/
def splitLines (cs : List Char) : List (List Char) :=
  cs.splitOn '\n'

/-- The characters at which a displayed text breaks. -/
def isDisplayBreak (c : Char) : Bool :=
  c == '\n' || c == '\r' || c == '\x0b' || c == '\x0c' || c == '\x1c' || c == '\x1d' ||
    c == '\x1e' || c == '\u0085' || c == '\u2028' || c == '\u2029'

/-- Splits a text at its display breaks, a carriage return and line feed counting as one break.
The accumulated characters belong to the current line, last one first. -/
def displayLinesFrom : List Char → List Char → List (List Char)
  | [], [] => []
  | line, [] => [line.reverse]
  | line, '\r' :: '\n' :: cs => line.reverse :: displayLinesFrom [] cs
  | line, c :: cs =>
      if isDisplayBreak c then line.reverse :: displayLinesFrom [] cs
      else displayLinesFrom (c :: line) cs

/-- The lines of a text as it is displayed; a break at the very end starts no further line. -/
def displayLines (s : String) : List String :=
  (displayLinesFrom [] s.toList).map String.ofList

end SlimTemplate.Text
