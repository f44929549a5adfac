import SlimTemplate.Slim.Attribute
import SlimTemplate.Slim.Node

/-!
Tag lines: a head (name and shortcuts), explicit attributes and inline content, or a head with an
equals sign and the code whose value fills the tag.
-/

namespace SlimTemplate.Slim

/-- The name of a tag that is given by its shortcuts only. -/
def defaultTag : String := "div"

/-- The non-empty runs of name characters that follow a mark, in order. -/
def runsAfter (mark : Char) : List Char → List (List Char)
  | [] => []
  | c :: cs =>
      let run := cs.takeWhile isNameChar
      if c == mark && !run.isEmpty then run :: runsAfter mark cs else runsAfter mark cs

/-- All classes of a head, joined, and its first id. -/
def shortcutAttributes (cs : List Char) : Attributes :=
  let classes := runsAfter '.' cs
  let ids := runsAfter '#' cs
  (if classes.isEmpty then [] else [("class", " ".intercalate (classes.map String.ofList))]) ++
    (ids.take 1).map fun id => ("id", String.ofList id)

/-- The tag name and the attributes of the shortcuts of a head. -/
def splitHead (head : List Char) : String × Attributes :=
  if head.head?.any Char.isAlpha then
    (String.ofList (head.takeWhile Char.isAlphanum),
      shortcutAttributes (head.dropWhile Char.isAlphanum))
  else
    (defaultTag, shortcutAttributes head)

/-- The head and the code of a tag line whose head holds an equals sign with code after it. -/
def splitOutput? (content : List Char) : Option (List Char × List Char) :=
  let head := (Text.words content).headD []
  let code := Text.trim ((content.dropWhile (· != '=')).drop 1)
  if head.contains '=' && !code.isEmpty then
    some (content.takeWhile (· != '='), code)
  else
    none

/-- The words of a tag line after its head, joined by single spaces. -/
def afterHead (content : List Char) : List Char :=
  [' '].intercalate ((Text.words content).drop 1)

/-- The inline content that is left of a tag line: output code after an equals sign and a space,
otherwise text. -/
def readInline (cs : List Char) (depth : Int) (line : Nat) (raw : String) : List Inline :=
  match cs with
  | [] => []
  | '=' :: ' ' :: code => [⟨.expression, String.ofList code, depth, line, raw⟩]
  | cs => [⟨.text, String.ofList cs, depth, line, raw⟩]

/-- Reads a tag line, with the suspicious values met on it. -/
def readTag (content : List Char) (depth : Int) (line : Nat) (raw : String) :
    Node × List Suspicion :=
  match splitOutput? content with
  | some (head, code) =>
      let (name, attributes) := splitHead head
      let inline := ⟨.expression, String.ofList code, depth, line, raw⟩
      (⟨.tag name attributes [inline], depth, line, raw⟩, [])
  | none =>
      let (name, shortcuts) := splitHead ((Text.words content).headD [])
      let ps := pieces (afterHead content)
      let attributes := shortcuts.merge (explicitAttributes ps)
      (⟨.tag name attributes (readInline (leftover ps) depth line raw), depth, line, raw⟩,
        (assignments ps).filterMap Assignment.suspicion?)

end SlimTemplate.Slim
