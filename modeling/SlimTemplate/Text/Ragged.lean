import SlimTemplate.Text.Quoted
import SlimTemplate.Text.Utf8

/-!
Texts by their code points. Halves of surrogate pairs may stand in a text; they are no characters,
so such a text is no string and cannot be encoded. Only settings and what is written to a file are
texts of this kind here: names of files and everything that is shown are strings.
-/

namespace SlimTemplate

/-- A text that is no string. -/
structure Ragged where
  codePoints : List Nat
  isRagged : codePoints.all Nat.isValidChar = false
  deriving DecidableEq, Repr

inductive AnyText where
  | plain (s : String)
  | ragged (r : Ragged)
  deriving DecidableEq, Repr

instance : Coe String AnyText :=
  ⟨.plain⟩

/-- The code points that cannot be encoded: the position of the first, their number less one, and
the first of them. -/
structure Text.EncodeError where
  position : Nat
  extra : Nat
  first : Nat
  deriving DecidableEq, Repr

def Text.EncodeError.message (e : EncodeError) : String :=
  let where_ :=
    if e.extra == 0 then
      "character '" ++ escape e.first ++ "' in position " ++ toString e.position
    else "characters in position " ++ toString e.position ++ "-" ++ toString (e.position + e.extra)
  "'utf-8' codec can't encode " ++ where_ ++ ": surrogates not allowed"

/-- The first code points of a ragged text that are no characters. -/
def Ragged.encodeError (r : Ragged) : Text.EncodeError :=
  let isHalf (n : Nat) : Bool := !n.isValidChar
  let position := r.codePoints.findIdx isHalf
  let rest := r.codePoints.drop position
  ⟨position, (rest.takeWhile isHalf).length - 1, rest.headD 0⟩

namespace AnyText

/-- The string that a text is, if it is one. -/
def characters : AnyText → Except Text.EncodeError String
  | plain s => .ok s
  | ragged r => .error r.encodeError

def encode (text : AnyText) : Except Text.EncodeError Text.Bytes :=
  Text.encode <$> text.characters

def IsDotted : AnyText → Prop
  | plain s => s.toList.head? = some '.'
  | ragged r => r.codePoints.head? = some '.'.toNat

instance : DecidablePred IsDotted
  | plain s => inferInstanceAs (Decidable (s.toList.head? = some '.'))
  | ragged r => inferInstanceAs (Decidable (r.codePoints.head? = some '.'.toNat))

end AnyText
end SlimTemplate
