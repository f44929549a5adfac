import SlimTemplate.Yaml.Cursor

/-!
Scalars of a YAML text: plain, quoted and block scalars, with their line folding. Every function
gives the text of the scalar and the position after it. Loops are bounded by the length of the
text, since every round reads a character. A quoted scalar is given by its code points, since
escapes can name some that are no characters.
-/

namespace SlimTemplate.Yaml

abbrev Scan := Except Problem

/-- The line breaks of a folded text: a single line feed becomes a space. -/
def folded (first : Char) (breaks : List Char) : List Char :=
  if first != '\n' then first :: breaks else if breaks.isEmpty then [' '] else breaks

/-! Quoted scalars -/

/-- Line breaks and leading blanks inside a quoted scalar. -/
def quotedBreaks : Nat → Cursor → Scan (List Char × Cursor)
  | 0, _ => .error .malformed
  | fuel + 1, cursor =>
      if cursor.atDocumentMarker then .error .malformed
      else
        let cursor := cursor.skipWhile fun c => c == ' ' || c == '\t'
        match cursor.lineBreak? with
        | some (c, cursor) => do
            let (breaks, cursor) ← quotedBreaks fuel cursor
            return (c :: breaks, cursor)
        | none => .ok ([], cursor)

def hexValue? (cs : List Char) : Option Nat :=
  cs.foldlM (fun n c => (if c.toNat < 128 then Text.digit? 16 c else none).map (16 * n + ·)) 0

/-- The character that an escape of one letter stands for. -/
def simpleEscape? (c : Char) : Option Char :=
  [('0', '\x00'), ('a', '\x07'), ('b', '\x08'), ('t', '\t'), ('\t', '\t'), ('n', '\n'),
   ('v', '\x0b'), ('f', '\x0c'), ('r', '\r'), ('e', '\x1b'), (' ', ' '), ('"', '"'), ('/', '/'),
   ('\\', '\\'), ('N', '\x85'), ('_', '\xa0'), ('L', '\u2028'), ('P', '\u2029')].lookup c

/-- The number of hexadecimal digits of an escape. -/
def escapeWidth? (c : Char) : Option Nat :=
  [('x', 2), ('u', 4), ('U', 8)].lookup c

/-- The code point of a numeric escape whose digits start at the position. -/
def numericEscape (width : Nat) (cursor : Cursor) : Scan (Nat × Cursor) :=
  let digits := cursor.rest.take width
  match hexValue? digits with
  | some n =>
      if digits.length < width then .error .unfinished
      else if n < 0x110000 then .ok (n, cursor.forward width)
      else .error (.codePoint n)
  | none => .error .malformed

/-- The characters that stand for themselves inside quotes of either kind. -/
def isOrdinary (c : Char) : Bool :=
  !(c == ' ' || c == '\t' || c == '\'' || c == '"' || c == '\\' || isBreak c)

/-- The rest of a quoted scalar, up to and with its closing quote. -/
def quotedScalar (double : Bool) : Nat → Cursor → Scan (List Nat × Cursor)
  | 0, _ => .error .malformed
  | fuel + 1, cursor =>
      let continue_ (ns : List Nat) (cursor : Cursor) : Scan (List Nat × Cursor) := do
        let (rest, cursor) ← quotedScalar double fuel cursor
        return (ns ++ rest, cursor)
      let codes (cs : List Char) : List Nat := cs.map Char.toNat
      match cursor.peek, double with
      | none, _ => .error .unfinished
      | some '\'', false =>
          if cursor.peek 1 == some '\'' then continue_ (codes ['\'']) (cursor.forward 2)
          else .ok ([], cursor.step)
      | some '"', true => .ok ([], cursor.step)
      | some '\\', true =>
          let cursor := cursor.step
          match cursor.peek with
          | none => .error .unfinished
          | some c =>
              match simpleEscape? c, escapeWidth? c, cursor.lineBreak? with
              | some replacement, _, _ => continue_ (codes [replacement]) cursor.step
              | none, some width, _ => do
                  let (n, cursor) ← numericEscape width cursor.step
                  continue_ [n] cursor
              | none, none, some (_, cursor) => do
                  let (breaks, cursor) ← quotedBreaks fuel cursor
                  continue_ (codes breaks) cursor
              | none, none, none => .error .malformed
      | some c, _ =>
          if c == ' ' || c == '\t' || isBreak c then do
            let (blanks, cursor) := cursor.takeWhile fun c => c == ' ' || c == '\t'
            match cursor.lineBreak? with
            | some (first, cursor) =>
                let (breaks, cursor) ← quotedBreaks fuel cursor
                continue_ (codes (folded first breaks)) cursor
            | none => continue_ (codes blanks) cursor
          else if isOrdinary c then
            let (run, cursor) := cursor.takeWhile isOrdinary
            continue_ (codes run) cursor
          else continue_ (codes [c]) cursor.step

/-! Plain scalars -/

/-- The characters that give flow collections their shape. -/
def isFlowMark (c : Char) : Bool :=
  c == ',' || c == '[' || c == ']' || c == '\x7b' || c == '\x7d'

/-- Whether a plain scalar ends before the character `c`, which `next` follows. -/
def endsPlain (version : Version) (inFlow : Bool) (c : Char) (next : Option Char) : Bool :=
  match c with
  | ':' => endsToken next
  | '?' => version = .v1_1 && inFlow
  | c => endsToken (some c) || (inFlow && isFlowMark c)

/-- The characters of a plain scalar up to the next blank or the end of the scalar. -/
def plainRun (version : Version) (inFlow : Bool) : List Char → List Char
  | [] => []
  | c :: rest =>
      if endsPlain version inFlow c rest.head? then [] else c :: plainRun version inFlow rest

/-- Line breaks inside a plain scalar; nothing if a document marker follows. -/
def plainBreaks : Nat → Cursor → Option (List Char × Cursor)
  | 0, _ => none
  | fuel + 1, cursor =>
      if cursor.atDocumentMarker then none
      else
        let cursor := cursor.skipWhile (· == ' ')
        match cursor.lineBreak? with
        | some (c, cursor) => do
            let (breaks, cursor) ← plainBreaks fuel cursor
            return (c :: breaks, cursor)
        | none => some ([], cursor)

/-- The blanks and breaks between two parts of a plain scalar, the position after them, and whether
a line was ended. -/
def plainSpaces (fuel : Nat) (cursor : Cursor) : List Char × Cursor × Bool :=
  let (blanks, cursor) := cursor.takeWhile (· == ' ')
  match cursor.lineBreak? with
  | none => (blanks, cursor, false)
  | some (first, after) =>
      match plainBreaks fuel after with
      | some (breaks, cursor) => (folded first breaks, cursor, true)
      | none => ([], after, true)

/-- A plain scalar whose further lines are indented by at least `indent`: its text, the position
after it, and whether it ended with a line. -/
def plainScalar (version : Version) (inFlow : Bool) (indent : Int) :
    Nat → Cursor → List Char × Cursor × Bool
  | 0, cursor => ([], cursor, false)
  | fuel + 1, cursor =>
      let run := if cursor.peek == some '#' then [] else plainRun version inFlow cursor.rest
      if run.isEmpty then ([], cursor, false)
      else
        let (spaces, next, ended) := plainSpaces fuel (cursor.forward run.length)
        if spaces.isEmpty || next.peek == some '#' || (!inFlow && (next.column : Int) < indent) then
          (run, next, ended)
        else
          let (rest, next, endedLater) := plainScalar version inFlow indent fuel next
          if rest.isEmpty then (run, next, ended || endedLater)
          else (run ++ spaces ++ rest, next, endedLater)

/-! Block scalars -/

/-- What happens to the line breaks at the end of a block scalar. -/
inductive Chomping where
  | strip
  | clip
  | keep
  deriving DecidableEq, Repr

def chomping? : Option Char → Option Chomping
  | some '+' => some .keep
  | some '-' => some .strip
  | _ => none

def indentDigit? : Option Char → Option Nat
  | some c => if c.isDigit then some (c.toNat - 48) else none
  | none => none

/-- The indicators after the mark of a block scalar, in either order. -/
def blockIndicators (cursor : Cursor) : Scan (Chomping × Option Nat × Cursor) := do
  let (chomping, increment, cursor) :=
    match chomping? cursor.peek, indentDigit? cursor.peek with
    | some chomping, _ =>
        match indentDigit? (cursor.peek 1) with
        | some n => (chomping, some n, cursor.forward 2)
        | none => (chomping, none, cursor.step)
    | none, some n =>
        match chomping? (cursor.peek 1) with
        | some chomping => (chomping, some n, cursor.forward 2)
        | none => (.clip, some n, cursor.step)
    | none, none => (.clip, none, cursor)
  if increment == some 0 then .error .malformed
  else if endsLine cursor.peek || cursor.peek == some ' ' then .ok (chomping, increment, cursor)
  else .error .malformed

/-- Skips blanks and a comment to the end of the line. -/
def restOfLine (cursor : Cursor) : Scan Cursor :=
  let cursor := cursor.skipWhile (· == ' ')
  let cursor :=
    if cursor.peek == some '#' then cursor.skipWhile fun c => !endsLine (some c) else cursor
  match cursor.lineBreak? with
  | some (_, cursor) => .ok cursor
  | none => if cursor.peek.isNone then .ok cursor else .error .malformed

/-- The empty lines before a block scalar whose indentation is not told. -/
structure Leading where
  breaks : List Char := []
  /-- The column at which the first of them ends. -/
  first : Option Nat := none
  /-- The deepest indentation among them and the line after them. -/
  deepest : Nat := 0

/-- Skips empty lines and the indentation of the line after them. -/
def blockIndentation (leading : Leading) : Nat → Cursor → Leading × Cursor
  | 0, cursor => (leading, cursor)
  | fuel + 1, cursor =>
      match cursor.lineBreak? with
      | some (c, after) =>
          blockIndentation
            { leading with
              breaks := leading.breaks ++ [c]
              first := leading.first.or (some cursor.column) } fuel after
      | none =>
          if cursor.peek == some ' ' then
            let deepest := max leading.deepest (cursor.column + 1)
            blockIndentation { leading with deepest } fuel cursor.step
          else (leading, cursor)

/-- No line may be deeper than the first empty one, if that is indented at all. -/
def Leading.isUneven (leading : Leading) : Bool :=
  leading.first.any fun first => 0 < first && first < leading.deepest

/-- Skips empty lines and the indentation of the line after them. -/
def blockBreaks (indent : Nat) : Nat → Cursor → List Char × Cursor
  | 0, cursor => ([], cursor)
  | fuel + 1, cursor =>
      if cursor.column < indent && cursor.peek == some ' ' then
        blockBreaks indent fuel cursor.step
      else
        match cursor.lineBreak? with
        | some (c, cursor) =>
            let (breaks, cursor) := blockBreaks indent fuel cursor
            (c :: breaks, cursor)
        | none => ([], cursor)

/-- The lines of a block scalar, each indented by `indent`, after the empty lines `breaks`. Gives
the text without its last line break, that line break, the empty lines at the end, and the
position after all. -/
def blockLines (fold : Bool) (indent : Nat) (atTop : Bool) :
    Nat → List Char → Cursor → List Char × List Char × List Char × Cursor
  | 0, breaks, cursor => ([], [], breaks, cursor)
  | fuel + 1, breaks, cursor =>
      if cursor.column != indent || cursor.peek.isNone then ([], [], breaks, cursor)
      else
        let startsBlank := cursor.peek == some ' ' || cursor.peek == some '\t'
        let (line, cursor) := cursor.takeWhile fun c => !endsLine (some c)
        let (lineBreak, cursor) :=
          match cursor.lineBreak? with
          | some (c, cursor) => ([c], cursor)
          | none => ([], cursor)
        let (after, cursor) := blockBreaks indent fuel cursor
        let stop := atTop && cursor.column == 0 && cursor.atDocumentMarker
        if stop || cursor.column != indent || cursor.peek.isNone then
          (breaks ++ line, lineBreak, after, cursor)
        else
          let nextBlank := cursor.peek == some ' ' || cursor.peek == some '\t'
          let join :=
            if fold && lineBreak == ['\n'] && !startsBlank && !nextBlank then
              if after.isEmpty then [' '] else []
            else lineBreak
          let (text, last, tail, cursor) := blockLines fold indent atTop fuel after cursor
          (breaks ++ line ++ join ++ text, last, tail, cursor)

/-- A block scalar from its indicators on, inside a block of the given indentation. -/
def blockScalar (fold : Bool) (blockIndent : Int) (fuel : Nat) (cursor : Cursor) :
    Scan (List Char × Cursor) := do
  let (chomping, increment, cursor) ← blockIndicators cursor
  let cursor ← restOfLine cursor
  let least := (blockIndent + 1).toNat
  let (breaks, indent, cursor) ←
    match increment with
    | none => do
        let (leading, cursor) := blockIndentation {} fuel cursor
        if leading.isUneven then throw .malformed
        pure (leading.breaks, max least leading.deepest, cursor)
    | some n =>
        let indent := max least 1 + n - 1
        let (breaks, cursor) := blockBreaks indent fuel cursor
        pure (breaks, indent, cursor)
  let atTop := least == 0
  let (text, last, tail, cursor) := blockLines fold indent atTop fuel breaks cursor
  let ending :=
    match chomping with
    | .strip => []
    | .clip => last
    | .keep => last ++ tail
  return (text ++ ending, cursor)

end SlimTemplate.Yaml
