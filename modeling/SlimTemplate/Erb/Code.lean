import SlimTemplate.Text.Blank
import SlimTemplate.Text.Word

/-!
Embedded code, as far as its first word and its end tell whether it opens, continues or ends a
block. The code itself is not read further.
-/

namespace SlimTemplate.Erb

/-- The words that continue an open block instead of opening one. -/
def continuationWords : List String :=
  ["else", "elsif", "when", "in", "rescue", "ensure"]

/-- The words that open a block. -/
def openingWords : List String :=
  ["if", "unless", "case", "while", "until", "for", "begin"]

/-- Whether a text is blank but for block parameters between two bars, or blank altogether. -/
def isParameterList (cs : List Char) : Bool :=
  match Text.trimStart cs with
  | [] => true
  | '|' :: cs =>
      match cs.dropWhile (· != '|') with
      | [] => false
      | _ :: cs => cs.all Text.isBlank
  | _ => false

/-- Whether the word `do`, with block parameters or without, ends the text; `inWord` tells whether
a word character stands before it. -/
def endsInDoFrom (inWord : Bool) : List Char → Bool
  | [] => false
  | c :: cs =>
      (!inWord && c == 'd' &&
        match cs with
        | 'o' :: cs => isParameterList cs
        | _ => false) ||
      endsInDoFrom (Text.isWordChar c) cs

/-- Whether code takes a block body, as in `form_for user do |f|`. -/
def endsInDo (code : String) : Bool :=
  endsInDoFrom false code.toList

def isContinuationCode (code : String) : Bool :=
  (Text.firstWord? code).any (continuationWords.contains ·)

/-- What a statement does to the nesting of blocks. -/
inductive Role where
  | opens
  | middle
  | closes
  | plain
  deriving DecidableEq, Repr

def statementRole (code : String) : Role :=
  match Text.firstWord? code with
  | none => .plain
  | some word =>
      if word = "end" then .closes
      else if continuationWords.contains word then .middle
      else if openingWords.contains word || endsInDo code then .opens
      else .plain

end SlimTemplate.Erb
