import SlimTemplate.Text.Printable

/-!
Quoted text, the form in which messages show a string: the characters between two quotes, with an
escape for each one that would not be read back or cannot be seen.
-/

namespace SlimTemplate.Text

/-- The hexadecimal digits of `n`, at least `width` of them. -/
def hexDigits (width n : Nat) : String :=
  let digits := Nat.toDigits 16 n
  String.ofList (List.replicate (width - digits.length) '0' ++ digits)

/-- Single quotes, unless the text has a single quote and no double quote. -/
def quoteFor (cs : List Char) : Char :=
  if cs.contains '\'' && !cs.contains '"' then '"' else '\''

/-- The escape of a code point that cannot be seen. -/
def escape (n : Nat) : String :=
  if n ≤ 0xFF then "\\x" ++ hexDigits 2 n
  else if n ≤ 0xFFFF then "\\u" ++ hexDigits 4 n
  else "\\U" ++ hexDigits 8 n

def quoteChar (quote c : Char) : String :=
  if c == quote || c == '\\' then String.ofList ['\\', c]
  else if c == '\t' then "\\t"
  else if c == '\n' then "\\n"
  else if c == '\r' then "\\r"
  else if isPrintable c then String.singleton c
  else escape c.toNat

def quoted (s : String) : String :=
  let quote := quoteFor s.toList
  String.singleton quote ++ String.join (s.toList.map (quoteChar quote)) ++ String.singleton quote

/-- The text with the given code points, of which those that are no characters are replaced. -/
def ofCodePoints (ns : List Nat) : String :=
  String.ofList (ns.map fun n => if n.isValidChar then Char.ofNat n else '\ufffd')

/-- As `quoted`, for code points of which some are no characters. -/
def quotedCodePoints (ns : List Nat) : String :=
  let quote := quoteFor ((ns.filter Nat.isValidChar).map Char.ofNat)
  let one (n : Nat) := if n.isValidChar then quoteChar quote (Char.ofNat n) else escape n
  String.singleton quote ++ String.join (ns.map one) ++ String.singleton quote

/-- As `quoted`, for bytes, of which only those of visible characters are shown as they are. -/
def quotedBytes (data : List UInt8) : String :=
  let quote := quoteFor (data.map fun b => Char.ofNat b.toNat)
  let one (b : UInt8) :=
    if b < 0x7F then quoteChar quote (Char.ofNat b.toNat) else escape b.toNat
  "b" ++ String.singleton quote ++ String.join (data.map one) ++ String.singleton quote

end SlimTemplate.Text
