/-!
Blank characters, trimming and words. Everything here works on lists of characters, so that
scanners built on top are list recursions; the tables for letters and case live elsewhere.
-/

namespace SlimTemplate.Text

/-- A blank is one of the 29 characters that separate words and are trimmed from the ends of a
line. The zero-width characters (U+180E, U+200B, U+2060, U+FEFF) are not blank. -/
def isBlank (c : Char) : Bool :=
  let n := c.toNat
  (0x09 ≤ n && n ≤ 0x0D) || (0x1C ≤ n && n ≤ 0x20) || n == 0x85 || n == 0xA0 || n == 0x1680 ||
    (0x2000 ≤ n && n ≤ 0x200A) || n == 0x2028 || n == 0x2029 || n == 0x202F || n == 0x205F ||
    n == 0x3000

def trimStart (cs : List Char) : List Char :=
  cs.dropWhile isBlank

def trimEnd (cs : List Char) : List Char :=
  (trimStart cs.reverse).reverse

def trim (cs : List Char) : List Char :=
  trimEnd (trimStart cs)

/-- The maximal runs of characters that are not blank, in order. -/
def words (cs : List Char) : List (List Char) :=
  (cs.splitOnP isBlank).filter (!·.isEmpty)

/-- The first word of a text, if it has one. -/
def firstWord? (s : String) : Option String :=
  (words s.toList).head?.map String.ofList

end SlimTemplate.Text
