/-!
Options of the writing of ERB.
-/

namespace SlimTemplate.Erb

structure Options where
  /-- Spaces written for each column of source indentation. -/
  indentSize : Nat := 1
  /-- Whether comments of the source are kept. -/
  emitComments : Bool := true
  /-- Whether the blocks of indented code are ended. -/
  closeStatements : Bool := true
  /-- Whether empty void elements are written without a closing tag. -/
  voidElements : Bool := false
  indentSize_pos : 0 < indentSize := by decide
  deriving DecidableEq, Repr

end SlimTemplate.Erb
