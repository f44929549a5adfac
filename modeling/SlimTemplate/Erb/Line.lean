import SlimTemplate.Erb.Code
import SlimTemplate.Erb.Element
import SlimTemplate.Erb.Options
import SlimTemplate.Slim.Node
import SlimTemplate.Slim.Tag

/-!
Lines of an ERB document. A line is either a node's own line or the line that closes the block the
node opened; its text is decided by the node, the node after it and the options.
-/

namespace SlimTemplate.Erb

open Slim (Node Inline)

/-- A line of output with the node it comes from. The indentation is kept as a depth, so that the
number of spaces is settled only when the line is written. -/
structure Line where
  depth : Int
  body : String
  origin : Node
  closes : Bool
  deriving DecidableEq, Repr

/-- A line as text: its indentation and its body. -/
def Line.render (indentSize : Nat) (line : Line) : String :=
  String.ofList (List.replicate (line.depth * indentSize).toNat ' ') ++ line.body

/-- Whether the following node is nested in this one. -/
def isNested (node : Node) (next : Option Node) : Bool :=
  next.any (node.depth < ·.depth)

/-- A tag without a name is a division. -/
def tagName (name : String) : String :=
  if name = "" then Slim.defaultTag else name

/-- Whether a node is code that may take a block. -/
def isCode (node : Node) : Bool :=
  match node.construct with
  | .statement _ | .expression _ => true
  | _ => false

/-- Whether a node is a statement that continues an open block. -/
def isContinuation (node : Node) : Bool :=
  match node.construct with
  | .statement code => isContinuationCode code
  | _ => false

/-- The name under which a block is known: that of the tag, or the code that opened it. -/
def blockName (node : Node) : String :=
  match node.construct with
  | .tag name _ _ => tagName name
  | .text s | .statement s | .expression s | .comment s | .doctype s => s

/-- The text that closes the block of a node. -/
def closer (node : Node) : String :=
  match node.construct with
  | .tag name _ _ => closingTag (tagName name)
  | _ => "<% end %>"

def closerLine (node : Node) : Line :=
  ⟨node.depth, closer node, node, true⟩

/-- Whether a node opens a block. A statement that takes over a block always does. -/
def opensBlock (options : Options) (takesOver : Bool) (node : Node) (next : Option Node) : Bool :=
  match node.construct with
  | .tag _ _ inline => inline.isEmpty && isNested node next
  | .statement _ => options.closeStatements && (isNested node next || takesOver)
  | .expression code => options.closeStatements && endsInDo code && isNested node next
  | _ => false

/-- The content of a tag that stands on its line: one text or one expression; anything else is not
shown. -/
def inlineText : List Inline → String
  | [⟨.text, content, _, _, _⟩] => content
  | [⟨.expression, code, _, _, _⟩] => "<%= " ++ code ++ " %>"
  | _ => ""

def tagBody (options : Options) (name : String) (attributes : Slim.Attributes)
    (inline : List Inline) (nested : Bool) : String :=
  let opening := openingTag name attributes
  if inline.isEmpty && (nested || options.voidElements && isVoid name) then opening
  else opening ++ inlineText inline ++ closingTag name

/-- A comment that starts with an exclamation mark reaches the page; others are comments of the
template and can be left out. -/
def commentBody? (options : Options) (content : String) : Option String :=
  match content.toList with
  | '!' :: text => some ("<!-- " ++ String.ofList (Text.trim text) ++ " -->")
  | _ => if options.emitComments then some ("<%# " ++ content ++ " %>") else none

def doctypeBody (content : String) : String :=
  if content = "" || content = "doctype html" || content = "!!! 5" then "<!DOCTYPE html>"
  else "<!DOCTYPE " ++ content ++ ">"

/-- The text of a node's own line, without indentation. -/
def ownBody? (options : Options) (node : Node) (next : Option Node) : Option String :=
  match node.construct with
  | .tag name attributes inline =>
      some (tagBody options (tagName name) attributes inline (isNested node next))
  | .text content => some content
  | .statement code => some ("<% " ++ code ++ " %>")
  | .expression code => some ("<%= " ++ code ++ " %>")
  | .comment content => commentBody? options content
  | .doctype content => some (doctypeBody content)

/-- A document type is never indented. -/
def ownDepth (node : Node) : Int :=
  match node.construct with
  | .doctype _ => 0
  | _ => node.depth

def ownLine? (options : Options) (node : Node) (next : Option Node) : Option Line :=
  (ownBody? options node next).map (⟨ownDepth node, ·, node, false⟩)

end SlimTemplate.Erb
