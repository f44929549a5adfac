import SlimTemplate.Erb.Balance
import SlimTemplate.Erb.Writer
import SlimTemplate.Slim.Document

/-!
Conversion of a Slim source to ERB: the document is read, written and checked for balance. Only the
writing can fail.
-/

namespace SlimTemplate

/-- A converted source. -/
structure Conversion where
  document : Slim.Document
  output : String
  faults : List Erb.Imbalance
  deriving DecidableEq, Repr

def Conversion.isValid (conversion : Conversion) : Bool :=
  conversion.faults.isEmpty

/-- Converts a source. Code blocks are checked only if the writer ends them. -/
def convert (options : Erb.Options) (source : String) : Except Erb.Overflow Conversion := do
  let document := Slim.Document.parse source
  let output ← Erb.documentText options document.nodes
  return ⟨document, output, Erb.imbalances options.closeStatements output⟩

end SlimTemplate
