import SlimTemplate.Text.Utf8
import SlimTemplate.Yaml.Scalar

/-!
Tokens of a YAML text. Indentation becomes explicit: blocks start and end with tokens of their own.
That a block mapping starts is known only at the `:` after its first key, so the place of a possible
key is remembered and its tokens are put in there. Tokens that a problem keeps from being read are
replaced by a last token that tells the problem.
-/

namespace SlimTemplate.Yaml

inductive Token where
  | yamlDirective (major minor : Nat)
  | tagDirective (handle expansion : String)
  | otherDirective
  | documentStart
  | documentEnd
  | blockSequenceStart
  | blockMappingStart
  | blockEnd
  | flowSequenceStart
  | flowSequenceEnd
  | flowMappingStart
  | flowMappingEnd
  | blockEntry
  | flowEntry
  | key
  | value
  | alias (name : String)
  | anchor (name : String)
  | tag (handle : Option String) (rest : String)
  /-- A scalar, by its code points. -/
  | scalar (text : List Nat) (plain : Bool)
  /-- What comes next cannot be read. -/
  | stop (problem : Problem)
  deriving DecidableEq, Repr

/-- A place where a key without a mark of its own may start: how many tokens come before it, and
where it stands. Where a block demands a key, the key is required. -/
structure PossibleKey where
  position : Nat
  required : Bool
  index : Nat
  line : Nat
  column : Nat

/-- The version that a directive declares; only its minor part is looked at. -/
def Version.ofMinor (minor : Nat) : Version :=
  if minor = 1 then .v1_1 else .v1_2

/-- The state of reading tokens. `flow` has the opening characters of the flow collections around
the position, innermost first, and `keys` at most one possible key for each flow level. `declared`
is the version that a directive has given for the next document. -/
structure Scanner where
  cursor : Cursor
  version : Version
  declared : Option Version := none
  tokens : Array Token := #[]
  indent : Int := -1
  indents : List Int := []
  flow : List Char := []
  allowKey : Bool := true
  keys : List (Nat × PossibleKey) := []

namespace Scanner

def inFlow (s : Scanner) : Bool :=
  !s.flow.isEmpty

def emit (s : Scanner) (token : Token) : Scanner :=
  { s with tokens := s.tokens.push token }

def insert (s : Scanner) (position : Nat) (token : Token) : Scanner :=
  { s with tokens := s.tokens.insertIdxIfInBounds position token }

def move (s : Scanner) (n : Nat) : Scanner :=
  { s with cursor := s.cursor.forward n }

/-! Possible keys -/

/-- Drops the possible keys that are too far behind: a key ends on its line and is short. -/
def dropStaleKeys (s : Scanner) : Scan Scanner :=
  let isStale (key : PossibleKey) :=
    key.line != s.cursor.line || s.cursor.index - key.index > 1024
  if s.keys.any fun (_, key) => isStale key && key.required then .error .malformed
  else .ok { s with keys := s.keys.filter fun (_, key) => !isStale key }

/-- Drops the possible key of the current flow level. -/
def dropKey (s : Scanner) : Scan Scanner :=
  match s.keys.lookup s.flow.length with
  | some key =>
      if key.required then .error .malformed
      else .ok { s with keys := s.keys.filter (·.1 != s.flow.length) }
  | none => .ok s

/-- Remembers that a key may start here. -/
def saveKey (s : Scanner) : Scan Scanner := do
  if !s.allowKey then return s
  let s ← s.dropKey
  let key : PossibleKey := {
    position := s.tokens.size
    required := !s.inFlow && s.indent == s.cursor.column
    index := s.cursor.index
    line := s.cursor.line
    column := s.cursor.column }
  return { s with keys := (s.flow.length, key) :: s.keys }

/-! Indentation -/

/-- Ends the blocks that are deeper than a column, of which `indents` has the outer ones. -/
def unwindFrom (column indent : Int) (tokens : Array Token) :
    List Int → Array Token × Int × List Int
  | [] => (tokens, indent, [])
  | outer :: rest =>
      if indent > column then unwindFrom column outer (tokens.push .blockEnd) rest
      else (tokens, indent, outer :: rest)

def unwind (s : Scanner) (column : Int) : Scanner :=
  if s.inFlow then s
  else
    let (tokens, indent, indents) := unwindFrom column s.indent s.tokens s.indents
    { s with tokens, indent, indents }

/-- Starts a block at a column, unless the current one is as deep; tells whether it did. -/
def deepen (s : Scanner) (column : Int) : Bool × Scanner :=
  if s.indent < column then (true, { s with indent := column, indents := s.indent :: s.indents })
  else (false, s)

/-! Blanks -/

/-- Skips blanks, comments and line breaks. A new line allows a key. -/
def skipBlanks : Nat → Scanner → Scanner
  | 0, s => s
  | fuel + 1, s =>
      let cursor := s.cursor.skipWhile fun c => c == ' ' || (s.inFlow && c == '\t')
      let cursor :=
        if cursor.peek == some '#' then cursor.skipWhile fun c => !endsLine (some c) else cursor
      match cursor.lineBreak? with
      | some (_, cursor) =>
          skipBlanks fuel { s with cursor, allowKey := s.allowKey || !s.inFlow }
      | none => { s with cursor }

/-! Directives -/

def isHandleChar (c : Char) : Bool :=
  c.isAlphanum || c == '-' || c == '_'

def readNumber (cursor : Cursor) : Scan (Nat × Cursor) :=
  let (digits, cursor) := cursor.takeWhile Char.isDigit
  match Text.readNatural 10 digits with
  | .ok n => .ok (n, cursor)
  | .error .invalid => .error .malformed
  | .error (.tooLong count) => .error (.longInteger count)

/-- A handle of tags: `!` before a blank, `!!` or `!name!`. -/
def readHandle (cursor : Cursor) : Scan (String × Cursor) :=
  if cursor.peek != some '!' then .error .malformed
  else if cursor.peek 1 == some ' ' then .ok ("!", cursor.step)
  else
    let (name, after) := cursor.step.takeWhile isHandleChar
    if after.peek == some '!' then .ok (String.ofList ('!' :: name ++ ['!']), after.step)
    else .error .malformed

def isUriChar (version : Version) (c : Char) : Bool :=
  c.isAlphanum || "-;/?:@&=+$,_.!~*'()[]%".toList.contains c || (c == '#' && version = .v1_2)

/-- The bytes that escapes at the start of a text stand for, and what follows them. -/
def uriEscapes : List Char → Option (List UInt8 × List Char)
  | '%' :: a :: b :: rest => do
      let n ← hexValue? [a, b]
      let (bytes, rest) ← uriEscapes rest
      return (n.toUInt8 :: bytes, rest)
  | '%' :: _ => none
  | rest => some ([], rest)

/-- Whether the escapes in a text are complete, and those that stand together are UTF-8. -/
def hasValidEscapes : Nat → List Char → Bool
  | 0, _ => false
  | _ + 1, [] => true
  | fuel + 1, '%' :: rest =>
      match uriEscapes ('%' :: rest) with
      | some (bytes, rest) => (Text.decode bytes).toBool && hasValidEscapes fuel rest
      | none => false
  | fuel + 1, _ :: rest => hasValidEscapes fuel rest

/-- An address as it is written, with its escapes. -/
def readUri (version : Version) (cursor : Cursor) : Scan (List Char × Cursor) :=
  let (uri, cursor) := cursor.takeWhile (isUriChar version)
  if uri.isEmpty || !hasValidEscapes (uri.length + 1) uri then .error .malformed
  else .ok (uri, cursor)

/-- The text of an address: every escape stands for the character of its number. -/
def unescapeUri : List Char → List Char
  | '%' :: a :: b :: rest => Char.ofNat ((hexValue? [a, b]).getD 0) :: unescapeUri rest
  | c :: rest => c :: unescapeUri rest
  | [] => []

/-- A directive, after its `%`. What an unknown directive says is skipped. -/
def readDirective (version : Version) (cursor : Cursor) : Scan (Token × Cursor) := do
  let (name, cursor) := cursor.takeWhile fun c => isHandleChar c || c == ':' || c == '.'
  if name.isEmpty || !(endsLine cursor.peek || cursor.peek == some ' ') then
    .error .malformed
  else if name == "YAML".toList then
    let (major, cursor) ← readNumber (cursor.skipWhile (· == ' '))
    if cursor.peek != some '.' then throw .malformed
    let (minor, cursor) ← readNumber cursor.step
    if !(endsLine cursor.peek || cursor.peek == some ' ') then throw .malformed
    return (.yamlDirective major minor, ← restOfLine cursor)
  else if name == "TAG".toList then
    let (handle, cursor) ← readHandle (cursor.skipWhile (· == ' '))
    if cursor.peek != some ' ' then throw .malformed
    let (expansion, cursor) ← readUri version (cursor.skipWhile (· == ' '))
    if !(endsLine cursor.peek || cursor.peek == some ' ') then throw .malformed
    return (.tagDirective handle (String.ofList expansion), ← restOfLine cursor)
  else
    return (.otherDirective, ← restOfLine (cursor.skipWhile fun c => !endsLine (some c)))

/-! Anchors and tags -/

def isAnchorChar (c : Char) : Bool :=
  !isFlowMark c && ' ' < c && isAllowed c && c != '\x85' && c != '\ufeff'

/-- The name of an anchor or alias, after its mark. -/
def readAnchor (cursor : Cursor) : Scan (String × Cursor) :=
  let (name, cursor) := cursor.takeWhile isAnchorChar
  let ends := cursor.peek.elim true fun c =>
    endsToken (some c) || isBreak c || "?:,[]\x7b\x7d%@`".toList.contains c
  if name.isEmpty || !ends then .error .malformed else .ok (String.ofList name, cursor)

/-- A tag, from its `!` on: in angle brackets, alone, or with a handle. A second `!` belongs to the
shortest handle unless the tag has a third one. -/
def readTag (version : Version) (cursor : Cursor) : Scan (Token × Cursor) := do
  let (short, cursor) :=
    if cursor.peek 1 == some '!' then ("!!", cursor.step) else ("!", cursor)
  let (token, cursor) ←
    if cursor.peek 1 == some '<' then do
      let (uri, cursor) ← readUri version (cursor.forward 2)
      if cursor.peek != some '>' then throw .malformed
      pure (Token.tag none (String.ofList (unescapeUri uri)), cursor.step)
    else if endsToken (cursor.peek 1) then
      pure (Token.tag none short, cursor.step)
    else do
      let word := (cursor.step.takeWhile fun c => !(c == ' ' || isBreak c)).1
      let (handle, cursor) ←
        if word.contains '!' then readHandle cursor else pure (short, cursor.step)
      let (rest, cursor) ← readUri version cursor
      pure (Token.tag (some handle) (String.ofList (unescapeUri rest)), cursor)
  if endsLine cursor.peek || cursor.peek == some ' ' then return (token, cursor)
  else throw .malformed

/-! Tokens -/

/-- Emits a token of `n` characters after which no key may start. -/
def marker (s : Scanner) (token : Token) (n : Nat) : Scan Scanner := do
  let s ← (s.unwind (-1)).dropKey
  return ({ s with allowKey := false }.emit token).move n

/-- The start of a document, from which on its version holds. -/
def documentStart (s : Scanner) : Scan Scanner := do
  let s ← s.marker .documentStart 3
  return { s with version := s.declared.getD .v1_2, declared := none }

def directive (s : Scanner) : Scan Scanner := do
  let s ← (s.unwind (-1)).dropKey
  let (token, cursor) ← readDirective s.version s.cursor.step
  let declared :=
    match token with
    | .yamlDirective _ minor => some (Version.ofMinor minor)
    | _ => s.declared
  return { s with allowKey := false, cursor, declared }.emit token

def openFlow (s : Scanner) (token : Token) (mark : Char) : Scan Scanner := do
  let s ← s.saveKey
  return ({ s with flow := mark :: s.flow, allowKey := true }.emit token).move 1

def closeFlow (s : Scanner) (token : Token) : Scan Scanner := do
  let s ← s.dropKey
  return ({ s with flow := s.flow.tail, allowKey := false }.emit token).move 1

def separator (s : Scanner) : Scan Scanner := do
  let s ← s.dropKey
  return ({ s with allowKey := true }.emit .flowEntry).move 1

/-- Starts a block at the current column if it is deeper; in a block a key has to be allowed. -/
def openBlock (s : Scanner) (token : Token) : Scan Scanner :=
  if s.inFlow then .ok s
  else if !s.allowKey then .error .malformed
  else
    match s.deepen s.cursor.column with
    | (true, s) => .ok (s.emit token)
    | (false, s) => .ok s

def blockEntry (s : Scanner) : Scan Scanner := do
  let s ← s.openBlock .blockSequenceStart
  let s ← { s with allowKey := true }.dropKey
  return (s.emit .blockEntry).move 1

def explicitKey (s : Scanner) : Scan Scanner := do
  let s ← s.openBlock .blockMappingStart
  let s ← { s with allowKey := !s.inFlow }.dropKey
  return (s.emit .key).move 1

/-- The `:` of a mapping: after a possible key it makes it a key. -/
def mappingValue (s : Scanner) : Scan Scanner := do
  let s ←
    match s.keys.lookup s.flow.length with
    | some key =>
        let s := { s with keys := s.keys.filter (·.1 != s.flow.length), allowKey := false }
        let s := s.insert key.position .key
        match s.inFlow, s.deepen key.column with
        | false, (true, s) => pure (s.insert key.position .blockMappingStart)
        | _, _ => pure s
    | none => do
        let s ← s.openBlock .blockMappingStart
        { s with allowKey := !s.inFlow }.dropKey
  return (s.emit .value).move 1

/-- A token that may start a key and is followed by none. -/
def keyed (s : Scanner) (read : Cursor → Scan (Token × Cursor)) : Scan Scanner := do
  let s ← s.saveKey
  let (token, cursor) ← read s.cursor
  return { s with allowKey := false, cursor }.emit token

def quoted (s : Scanner) (double : Bool) (fuel : Nat) : Scan Scanner :=
  s.keyed fun cursor => do
    let (text, cursor) ← quotedScalar double fuel cursor.step
    return (.scalar text false, cursor)

def block (s : Scanner) (fold : Bool) (fuel : Nat) : Scan Scanner := do
  let s ← { s with allowKey := true }.dropKey
  let (text, cursor) ← blockScalar fold s.indent fuel s.cursor.step
  return { s with cursor }.emit (.scalar (text.map Char.toNat) false)

/-- A plain scalar; if it ends with its line, a key may follow. -/
def plain (s : Scanner) (fuel : Nat) : Scan Scanner := do
  let s ← s.saveKey
  let (text, cursor, ended) := plainScalar s.version s.inFlow (s.indent + 1) fuel s.cursor
  return { s with allowKey := ended, cursor }.emit (.scalar (text.map Char.toNat) true)

/-- Whether a `:` here belongs to a mapping. In braces it may stand right before a scalar, except
after another `:` that a possible key holds back. -/
def atValue (s : Scanner) (holding : Bool) : Bool :=
  let blank := endsToken (s.cursor.peek 1)
  match s.version, s.flow with
  | .v1_1, _ :: _ => true
  | .v1_2, '\x7b' :: _ => blank || !(holding && s.tokens.back? == some .value)
  | _, _ => blank

/-- Whether a plain scalar starts with the character `c`. -/
def startsPlain (s : Scanner) (c : Char) : Bool :=
  let next := s.cursor.peek 1
  if !(endsToken (some c) || "-?:,[]\x7b\x7d#&*!|>'\"%@`".toList.contains c) then true
  else if c == '-' then !endsToken next
  else if c == ':' && s.inFlow && s.version = .v1_2 then next != some ' ' && next != some '\t'
  else (c == '?' || c == ':') && !s.inFlow && !endsToken next

/-- Reads the token that starts with `c`; `holding` tells that a possible key holds tokens back. -/
def token (s : Scanner) (holding : Bool) (fuel : Nat) (c : Char) : Scan Scanner :=
  let atStart := s.cursor.column == 0
  if c == '%' && atStart then s.directive
  else if c == '-' && atStart && s.cursor.atMarker '-' then s.documentStart
  else if c == '.' && atStart && s.cursor.atMarker '.' then s.marker .documentEnd 3
  else if c == '[' then s.openFlow .flowSequenceStart c
  else if c == '\x7b' then s.openFlow .flowMappingStart c
  else if c == ']' then s.closeFlow .flowSequenceEnd
  else if c == '\x7d' then s.closeFlow .flowMappingEnd
  else if c == ',' then s.separator
  else if c == '-' && endsToken (s.cursor.peek 1) then s.blockEntry
  else if c == '?' && (s.inFlow || endsToken (s.cursor.peek 1)) then s.explicitKey
  else if c == ':' && s.atValue holding then s.mappingValue
  else if c == '*' then
    s.keyed fun cursor => do
      let (name, cursor) ← readAnchor cursor.step
      return (.alias name, cursor)
  else if c == '&' then
    s.keyed fun cursor => do
      let (name, cursor) ← readAnchor cursor.step
      return (.anchor name, cursor)
  else if c == '!' then s.keyed (readTag s.version)
  else if c == '|' && !s.inFlow then s.block false fuel
  else if c == '>' && !s.inFlow then s.block true fuel
  else if c == '\'' then s.quoted false fuel
  else if c == '"' then s.quoted true fuel
  else if s.startsPlain c then s.plain fuel
  else .error .malformed

/-- Reads the next tokens; gives whether they were the last. -/
def advance (s : Scanner) (complete : Bool) (fuel : Nat) : Scan (Scanner × Bool) := do
  let s ← s.dropStaleKeys
  let holding := !s.keys.isEmpty
  let s ← (s.skipBlanks fuel).dropStaleKeys
  let s := s.unwind s.cursor.column
  match s.cursor.peek with
  | none =>
      if !complete then throw .unfinished
      let s ← (s.unwind (-1)).dropKey
      return (s, true)
  | some c => return (← s.token holding fuel c, false)

/-- The tokens that are known although what comes next cannot be read: those before the first
possible key. -/
def known (s : Scanner) : List Token :=
  let pending := match s.dropStaleKeys with
    | .ok s => s.keys
    | .error _ => s.keys
  let count := pending.foldl (fun count (_, key) => min count key.position) s.tokens.size
  (s.tokens.take count).toList

/-- Reads tokens to the end of the text. -/
def run (complete : Bool) : Nat → Scanner → List Token
  | 0, s => s.known ++ [.stop .malformed]
  | fuel + 1, s =>
      match s.advance complete (fuel + 1) with
      | .error problem => s.known ++ [.stop problem]
      | .ok (s, true) => s.tokens.toList
      | .ok (s, false) => run complete fuel s

end Scanner

/-- The tokens of a text, which may start with a byte order mark. A text that is not complete is
known to go on. -/
def tokens (version : Version) (complete : Bool) (text : List Char) : List Token :=
  if !text.all isAllowed then [.stop .malformed]
  else
    let cursor : Cursor := { rest := text }
    Scanner.run complete (text.length + 1)
      { cursor := if cursor.peek == some '\ufeff' then cursor.step else cursor, version }

end SlimTemplate.Yaml
