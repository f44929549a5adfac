/-!
Base64: four digits of six bits stand for three bytes. Characters that are no digits are skipped,
and padding ends the text as soon as it fills a group.
-/

namespace SlimTemplate.Text

def base64Digit? (c : Char) : Option Nat :=
  if 'A' ≤ c && c ≤ 'Z' then some (c.toNat - 65)
  else if 'a' ≤ c && c ≤ 'z' then some (c.toNat - 71)
  else if '0' ≤ c && c ≤ '9' then some (c.toNat + 4)
  else if c == '+' then some 62
  else if c == '/' then some 63
  else none

/-- The bytes of a text, of whose current group `position` digits have been read, which leave the
bits `left`, and `pads` marks of padding after them. The last group has to be filled. -/
def base64From (position left pads : Nat) : List Char → Option (List UInt8)
  | [] => if position == 0 then some [] else none
  | '=' :: cs =>
      if position < 2 then base64From position left pads cs
      else if position + pads + 1 ≥ 4 then some []
      else base64From position left (pads + 1) cs
  | c :: cs =>
      match base64Digit? c, position with
      | none, _ => base64From position left pads cs
      | some digit, 0 => base64From 1 digit 0 cs
      | some digit, 1 =>
          ((left * 4 + digit / 16).toUInt8 :: ·) <$> base64From 2 (digit % 16) 0 cs
      | some digit, 2 =>
          ((left * 16 + digit / 4).toUInt8 :: ·) <$> base64From 3 (digit % 4) 0 cs
      | some digit, _ => ((left * 64 + digit).toUInt8 :: ·) <$> base64From 0 0 0 cs

def decodeBase64? (cs : List Char) : Option (List UInt8) :=
  base64From 0 0 0 cs

end SlimTemplate.Text
