import SlimTemplate.Text.Lowercase
import SlimTemplate.Slim.Node

/-!
HTML elements as they are written: opening tags with their attributes, closing tags, and the void
elements, which need no closing tag.
-/

namespace SlimTemplate.Erb

open Slim (Attributes)

def voidElements : List String :=
  ["area", "base", "br", "col", "embed", "hr", "img", "input", "link", "meta", "param", "source",
   "track", "wbr"]

/-- Void elements are recognised in any case. -/
def isVoid (name : String) : Bool :=
  voidElements.contains (Text.lower name)

/-- A double quote inside an attribute value is written as a character reference. -/
def escapeQuotes (value : String) : String :=
  String.ofList (value.toList.flatMap fun c => if c == '"' then "&quot;".toList else [c])

/-- One attribute. An empty value, or one equal to the key, is written as the bare key. -/
def attributeText (key value : String) : String :=
  if value = "" || value = key then key else key ++ "=\"" ++ escapeQuotes value ++ "\""

/-- All attributes in order, each after a space. -/
def attributesText (attributes : Attributes) : String :=
  String.join (attributes.map fun (key, value) => " " ++ attributeText key value)

def openingTag (name : String) (attributes : Attributes) : String :=
  "<" ++ name ++ attributesText attributes ++ ">"

def closingTag (name : String) : String :=
  "</" ++ name ++ ">"

end SlimTemplate.Erb
