import SlimTemplate.Text.Lines
import SlimTemplate.Slim.Line

/-!
Documents: the nodes of a source text in order, and the diagnostics met on the way. A reader keeps
the number of the current line and the diagnostics so far, so that single lines can be read on
their own as well.
-/

namespace SlimTemplate.Slim

structure Document where
  nodes : List Node := []
  diagnostics : List Diagnostic := []
  deriving DecidableEq, Repr

/-- The lines of a source: leading byte order marks are dropped and line ends unified first. -/
def sourceLines (source : String) : List (List Char) :=
  Text.splitLines (Text.unifyBreaks (source.toList.dropWhile (· == '\uFEFF')))

/-- Reads lines, the first of which has the given number. -/
def readLines : Nat → List (List Char) → Document
  | _, [] => {}
  | line, cs :: rest =>
      let (node, suspicions) := readLine line cs
      let after := readLines (line + 1) rest
      { nodes := node.toList ++ after.nodes
        diagnostics := suspicions.map (⟨line, ·⟩) ++ after.diagnostics }

def Document.parse (source : String) : Document :=
  readLines 1 (sourceLines source)

/-- The number of the current line and the diagnostics so far. -/
structure Reader where
  line : Nat := 0
  diagnostics : List Diagnostic := []
  deriving DecidableEq, Repr

namespace Reader

def note (reader : Reader) (suspicions : List Suspicion) : Reader :=
  { reader with diagnostics := reader.diagnostics ++ suspicions.map (⟨reader.line, ·⟩) }

/-- Reads a single line at the current line number. -/
def readLine (reader : Reader) (line : String) : Option Node × Reader :=
  let (node, suspicions) := Slim.readLine reader.line line.toList
  (node, reader.note suspicions)

/-- Reads the content of a tag line at the current line number. -/
def readTag (reader : Reader) (content : String) (depth : Int) (raw : String) : Node × Reader :=
  let (node, suspicions) := Slim.readTag content.toList depth reader.line raw
  (node, reader.note suspicions)

/-- Reads a whole source; what was noted before is forgotten. -/
def parse (_ : Reader) (source : String) : List Node × Reader :=
  let document := Document.parse source
  (document.nodes, ⟨(sourceLines source).length, document.diagnostics⟩)

end Reader
end SlimTemplate.Slim
