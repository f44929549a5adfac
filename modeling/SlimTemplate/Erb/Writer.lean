import SlimTemplate.Erb.Line

/-!
Writing ERB from the nodes of a document. The open blocks stand on a stack of the nodes that opened
them; a node closes all blocks at its depth or deeper before it is written, except that a
continuation takes over the code block at exactly its own depth.
-/

namespace SlimTemplate.Erb

open Slim (Node)

/-- The lines written so far, the nodes whose blocks are open, innermost first, and whether the
next node takes over a block. -/
structure Writer where
  lines : List Line := []
  stack : List Node := []
  continuing : Bool := false
  deriving DecidableEq, Repr

/-- An indentation is a signed 64-bit number of spaces. -/
def fitsIndentation (n : Int) : Bool :=
  Int64.minValue.toInt ≤ n && n ≤ Int64.maxValue.toInt

/-- A line is indented too far, to either side, to be written. -/
inductive Overflow where
  | indentation
  deriving DecidableEq, Repr

def Overflow.message : Overflow → String
  | .indentation => "cannot fit 'int' into an index-sized integer"

def overflows (options : Options) (node : Node) : Bool :=
  !fitsIndentation (ownDepth node * options.indentSize)

/-- The closing lines, the blocks that stay open, and whether a block was taken over, when all
blocks at the given depth or deeper are closed before `next`. -/
def closeBlocks (depth : Int) (next : Option Node) :
    List Node → List Line × List Node × Bool
  | [] => ([], [], false)
  | block :: outer =>
      if block.depth < depth then ([], block :: outer, false)
      else if isCode block && block.depth == depth && next.any isContinuation then
        ([], outer, true)
      else
        let (lines, stack, taken) := closeBlocks depth next outer
        (closerLine block :: lines, stack, taken)

namespace Writer

def closeTo (writer : Writer) (depth : Int) (next : Option Node) : Writer :=
  let (lines, stack, taken) := closeBlocks depth next writer.stack
  { lines := writer.lines ++ lines, stack, continuing := writer.continuing || taken }

/-- Writes one node. A node that cannot be indented leaves the writer as it was. -/
def write (options : Options) (writer : Writer) (node : Node) (next : Option Node) :
    Except Overflow Writer :=
  if overflows options node then .error .indentation
  else
    .ok {
      lines := writer.lines ++ (ownLine? options node next).toList
      stack :=
        if opensBlock options writer.continuing node next then node :: writer.stack
        else writer.stack
      continuing := false }

/-- Writes nodes in order, closing blocks before each. The writer is given back as it stands when
all are written or one overflows. -/
def writeAll (options : Options) (writer : Writer) : List Node → Writer × Except Overflow Unit
  | [] => (writer.closeTo 0 none, .ok ())
  | node :: rest =>
      let next := rest.head?
      match writer.write options node next with
      | .error e => (writer, .error e)
      | .ok writer =>
          match next with
          | none => writeAll options writer rest
          | some following => writeAll options (writer.closeTo following.depth next) rest

def text (options : Options) (writer : Writer) : String :=
  "\n".intercalate (writer.lines.map (·.render options.indentSize))

/-- Writes a whole document afresh, whatever the writer holds. When a node overflows, the writer
keeps what was written up to it. -/
def generate (options : Options) (writer : Writer) (nodes : List Node) :
    Writer × Except Overflow String :=
  let (after, result) :=
    { writer with lines := [], stack := [], continuing := false }.writeAll options nodes
  (after, result.map fun _ => after.text options)

end Writer

/-- The lines of the ERB document of a list of nodes. -/
def documentLines (options : Options) (nodes : List Node) : Except Overflow (List Line) :=
  let (writer, result) := ({} : Writer).writeAll options nodes
  result.map fun _ => writer.lines

/-- The text of the ERB document of a list of nodes. -/
def documentText (options : Options) (nodes : List Node) : Except Overflow String :=
  (({} : Writer).generate options nodes).2

end SlimTemplate.Erb
