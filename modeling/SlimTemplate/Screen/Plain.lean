import SlimTemplate.Screen.Event

/-!
Events as plain text, without colours and frames.
-/

namespace SlimTemplate.Screen

/-- Whether the text between brackets is a mark such as `bold red` or `/dim`. -/
def isMark (inside : List Char) : Bool :=
  let words := if inside.head? == some '/' then inside.tail else inside
  !words.isEmpty && words.all fun c => c.isLower || c == ' '

/-- A text after an opening bracket, without the mark it may start with. -/
def afterMark (text : List Char) : List Char :=
  let inside := text.takeWhile (· != ']')
  match text.drop inside.length with
  | _ :: rest => if isMark inside then rest else '[' :: text
  | [] => '[' :: text

def withoutMarks (s : String) : String :=
  match s.toList.splitOn '[' with
  | [] => s
  | first :: rest => String.ofList (first ++ rest.flatMap afterMark)

def Body.plain : Body → String
  | .text s => withoutMarks s
  | .code s _ => s

def Event.plain : Event → String
  | .print text => withoutMarks text
  | .panel body title _ =>
      (title.elim "" fun title => "== " ++ withoutMarks title ++ " ==\n") ++ body.plain
  | .table title columns rows =>
      "\n".intercalate (title :: (columns :: rows).map fun cells =>
        " | ".intercalate (cells.map withoutMarks))
  | .prompt text => withoutMarks text
  | .log level _ text => level.name ++ " " ++ text

end SlimTemplate.Screen
