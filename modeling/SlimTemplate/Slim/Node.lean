import SlimTemplate.Slim.Attributes

/-!
Nodes of a Slim document. A document is a flat list of nodes, one for each line that is not blank;
nesting is not stored but follows from the depths. Content on a tag's own line hangs on the tag.
-/

namespace SlimTemplate.Slim

/-- The kinds of line in a Slim document. -/
inductive Kind where
  | tag
  | text
  | statement
  | expression
  | comment
  | doctype
  deriving DecidableEq, Repr

/-- Content that stands on the line of a tag. -/
structure Inline where
  kind : Kind
  content : String
  depth : Int
  line : Nat
  raw : String
  deriving DecidableEq, Repr

/-- What a line says. -/
inductive Construct where
  | tag (name : String) (attributes : Attributes) (inline : List Inline)
  | text (content : String)
  | statement (code : String)
  | expression (code : String)
  | comment (content : String)
  | doctype (content : String)
  deriving DecidableEq, Repr

def Construct.kind : Construct → Kind
  | .tag .. => .tag
  | .text _ => .text
  | .statement _ => .statement
  | .expression _ => .expression
  | .comment _ => .comment
  | .doctype _ => .doctype

/-- A line of a document: what it says, how far it is indented, its number and its text. -/
structure Node where
  construct : Construct
  depth : Int := 0
  line : Nat := 0
  raw : String := ""
  deriving DecidableEq, Repr

end SlimTemplate.Slim
