import SlimTemplate.Text.Lines

/-!
UTF-8. The decoder stops at the first sequence that is not well formed and says where it stands
and what is wrong with it; text read from a file also has its line ends unified.
-/

namespace SlimTemplate.Text

abbrev Bytes := List UInt8

def encode (s : String) : Bytes :=
  s.toList.flatMap String.utf8EncodeChar

inductive Malformation where
  | startByte
  | continuationByte
  | endOfData
  deriving DecidableEq, Repr

def Malformation.message : Malformation → String
  | .startByte => "invalid start byte"
  | .continuationByte => "invalid continuation byte"
  | .endOfData => "unexpected end of data"

/-- The malformed bytes: the position of the first, their number less one, the first of them and
what is wrong. -/
structure DecodeError where
  position : Nat
  extra : Nat
  first : UInt8
  fault : Malformation
  deriving DecidableEq, Repr

def DecodeError.message (e : DecodeError) : String :=
  let where_ :=
    if e.extra == 0 then
      "byte 0x" ++ String.ofList (Nat.toDigits 16 e.first.toNat) ++
        " in position " ++ toString e.position
    else "bytes in position " ++ toString e.position ++ "-" ++ toString (e.position + e.extra)
  "'utf-8' codec can't decode " ++ where_ ++ ": " ++ e.fault.message

def isContinuation (b : UInt8) : Bool :=
  0x80 ≤ b && b < 0xC0

/-- The second byte of a sequence is further restricted after some first bytes: overlong forms,
surrogates and code points beyond U+10FFFF are refused there. -/
def isSecondByte (first second : UInt8) : Bool :=
  if first == 0xE0 then 0xA0 ≤ second && second < 0xC0
  else if first == 0xED then 0x80 ≤ second && second < 0xA0
  else if first == 0xF0 then 0x90 ≤ second && second < 0xC0
  else if first == 0xF4 then 0x80 ≤ second && second < 0x90
  else isContinuation second

/-- The code point of a sequence, from the payload of its first byte and its further bytes. -/
def sequenceChar (payload : Nat) (rest : Bytes) : Char :=
  Char.ofNat (rest.foldl (fun n b => n * 64 + (b.toNat - 0x80)) payload)

def decodeFrom (position : Nat) : Bytes → Except DecodeError (List Char)
  | [] => .ok []
  | a :: rest =>
      let fail (extra : Nat) (fault : Malformation) : Except DecodeError (List Char) :=
        .error ⟨position, extra, a, fault⟩
      if a < 0x80 then (Char.ofNat a.toNat :: ·) <$> decodeFrom (position + 1) rest
      else if a < 0xC2 then fail 0 .startByte
      else if a < 0xE0 then
        match rest with
        | [] => fail 0 .endOfData
        | b :: rest =>
            if !isSecondByte a b then fail 0 .continuationByte
            else (sequenceChar (a.toNat - 0xC0) [b] :: ·) <$> decodeFrom (position + 2) rest
      else if a < 0xF0 then
        match rest with
        | [] => fail 0 .endOfData
        | [b] => if isSecondByte a b then fail 1 .endOfData else fail 0 .continuationByte
        | b :: c :: rest =>
            if !isSecondByte a b then fail 0 .continuationByte
            else if !isContinuation c then fail 1 .continuationByte
            else (sequenceChar (a.toNat - 0xE0) [b, c] :: ·) <$> decodeFrom (position + 3) rest
      else if a < 0xF5 then
        match rest with
        | [] => fail 0 .endOfData
        | [b] => if isSecondByte a b then fail 1 .endOfData else fail 0 .continuationByte
        | [b, c] =>
            if !isSecondByte a b then fail 0 .continuationByte
            else if !isContinuation c then fail 1 .continuationByte
            else fail 2 .endOfData
        | b :: c :: d :: rest =>
            if !isSecondByte a b then fail 0 .continuationByte
            else if !isContinuation c then fail 1 .continuationByte
            else if !isContinuation d then fail 2 .continuationByte
            else (sequenceChar (a.toNat - 0xF0) [b, c, d] :: ·) <$> decodeFrom (position + 4) rest
      else fail 0 .startByte

/-- The text that the bytes encode, as it is. -/
def decode (bytes : Bytes) : Except DecodeError String :=
  String.ofList <$> decodeFrom 0 bytes

/-- The text that the bytes encode, with its line ends unified. -/
def decodeText (bytes : Bytes) : Except DecodeError String :=
  (fun cs => String.ofList (unifyBreaks cs)) <$> decodeFrom 0 bytes

/-- Text that is read piece by piece. If the bytes are malformed, only whole pieces before the place
can be read. -/
structure Stream where
  text : List Char
  broken : Option DecodeError := none
  deriving Repr

/-- Bytes are decoded in pieces of this size. -/
def pieceBytes : Nat := 8192

/-- Text is read in pieces of this length, the first two at once. -/
def pieceLength : Nat := 4096

/-- The start of the bytes that belong to no complete sequence at the end of a piece. -/
def incompleteFrom (bytes : Bytes) : Nat :=
  match decodeFrom 0 bytes with
  | .error e => if e.fault = .endOfData then e.position else bytes.length
  | .ok _ => bytes.length

/-- Reads bytes piece by piece. The position of a malformed sequence is counted from the start of the
piece in which it shows, or from that of a sequence that was incomplete before it. -/
def readStream (bytes : Bytes) : Stream :=
  match decodeFrom 0 bytes with
  | .ok cs => { text := unifyBreaks cs }
  | .error e =>
      let shown :=
        match e.fault with
        | .startByte => e.position
        | .continuationByte => e.position + e.extra + 1
        | .endOfData => bytes.length
      let piece := if e.fault = .endOfData then bytes.length else shown / pieceBytes * pieceBytes
      let start := incompleteFrom (bytes.take piece)
      let before := (decodeFrom 0 (bytes.take start)).toOption.getD []
      let known := unifyBreaks (if before.getLast? == some '\r' then before.dropLast else before)
      let pieces := known.length / pieceLength
      { text := if pieces < 2 then [] else known.take (pieces * pieceLength)
        broken := some { e with position := e.position - start } }

/-- The three bytes of a leading byte order mark. -/
def byteOrderMark : Bytes := [0xEF, 0xBB, 0xBF]

/-- As `decodeText`, without a leading byte order mark. Bytes that break off within the mark are
an empty text, and positions are counted after the mark. -/
def decodeMarkedText (bytes : Bytes) : Except DecodeError String :=
  if bytes.length < 3 && bytes.isPrefixOf byteOrderMark then .ok ""
  else if byteOrderMark.isPrefixOf bytes then decodeText (bytes.drop 3)
  else decodeText bytes

end SlimTemplate.Text
