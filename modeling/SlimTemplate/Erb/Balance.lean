import SlimTemplate.Erb.Code
import SlimTemplate.Erb.Element
import SlimTemplate.Erb.Embedded
import SlimTemplate.Erb.Markup

/-!
Balance of an ERB text: every element that is opened is closed, last opened first, and every block
of code is ended. The check is made on the text alone, and it finds all faults it can, so that it
recovers from a closing tag that does not fit.
-/

namespace SlimTemplate.Erb

inductive Imbalance where
  | unexpected (name : String)
  | mismatched (name expected : String)
  | unclosed (name : String)
  | strayMiddle (code : String)
  | strayEnd
  | unclosedBlocks (count : Nat)
  deriving DecidableEq, Repr

def Imbalance.message : Imbalance → String
  | .unexpected name => "unexpected </" ++ name ++ ">"
  | .mismatched name expected => "mismatched </" ++ name ++ ">, expected </" ++ expected ++ ">"
  | .unclosed name => "unclosed <" ++ name ++ ">"
  | .strayMiddle code => "'<% " ++ code ++ " %>' outside of any block"
  | .strayEnd => "'<% end %>' without an open block"
  | .unclosedBlocks count => toString count ++ " ERB block(s) not closed with '<% end %>'"

/-- The opening or closing of an element that has to be balanced. -/
inductive ElementMark where
  | opening (name : String)
  | closing (name : String)
  deriving DecidableEq, Repr

/-- Void elements and self-closing tags need no partner. Element names are compared in lower case;
they are ASCII letters and digits. -/
def HtmlTag.mark? (tag : HtmlTag) : Option ElementMark :=
  let name := String.ofList (tag.name.map Char.toLower)
  if voidElements.contains name || tag.selfClosing then none
  else if tag.closing then some (.closing name)
  else some (.opening name)

/-- The elements opened and closed in a text, in order. -/
def elementMarks (cs : List Char) : List ElementMark :=
  (htmlTags (markup cs)).filterMap HtmlTag.mark?

/-- The faults of a sequence of marks, given the elements that are open, innermost first. A closing
tag that does not fit closes everything up to the element it names, if that is open. -/
def elementFaults : List String → List ElementMark → List Imbalance
  | stack, [] => stack.map .unclosed
  | stack, .opening name :: marks => elementFaults (name :: stack) marks
  | [], .closing name :: marks => .unexpected name :: elementFaults [] marks
  | top :: stack, .closing name :: marks =>
      if top = name then elementFaults stack marks
      else if stack.contains name then
        .mismatched name top :: elementFaults ((stack.dropWhile (· != name)).drop 1) marks
      else .mismatched name top :: elementFaults (top :: stack) marks

/-- What the embedded tags of a text do to the nesting of blocks, with their code; comments do
nothing. -/
def blockRoles (cs : List Char) : List (Role × String) :=
  (embeddedTags cs).filterMap fun (marker, code) =>
    let code := String.ofList (Text.trim code)
    match marker with
    | .comment => none
    | .output => some (if endsInDo code then .opens else .plain, code)
    | .run => some (statementRole code, code)

/-- The faults of a sequence of roles, given the number of open blocks. -/
def blockFaults : Nat → List (Role × String) → List Imbalance
  | 0, [] => []
  | depth + 1, [] => [.unclosedBlocks (depth + 1)]
  | depth, (.opens, _) :: roles => blockFaults (depth + 1) roles
  | depth, (.plain, _) :: roles => blockFaults depth roles
  | 0, (.middle, code) :: roles => .strayMiddle code :: blockFaults 0 roles
  | depth + 1, (.middle, _) :: roles => blockFaults (depth + 1) roles
  | 0, (.closes, _) :: roles => .strayEnd :: blockFaults 0 roles
  | depth + 1, (.closes, _) :: roles => blockFaults depth roles

/-- The faults of an ERB text: first those of its elements, then, if asked for, those of its
blocks. -/
def imbalances (checkStatements : Bool) (text : String) : List Imbalance :=
  elementFaults [] (elementMarks text.toList) ++
    if checkStatements then blockFaults 0 (blockRoles text.toList) else []

/-- What the first fault is reported as; nothing for a balanced text. -/
def verdict (faults : List Imbalance) : String :=
  match faults with
  | [] => ""
  | fault :: _ => "Validation Failed: " ++ fault.message

end SlimTemplate.Erb
