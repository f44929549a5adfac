/-!
Diagnostics: remarks on lines that were read but look wrong. They never stop the reading.
-/

namespace SlimTemplate.Slim

inductive Suspicion where
  | tabInIndentation
  /-- A value starts with a quote that is not closed; the whole assignment is kept. -/
  | unterminatedValue (assignment : String)
  deriving DecidableEq, Repr

def Suspicion.message : Suspicion → String
  | .tabInIndentation => "tab character in indentation"
  | .unterminatedValue assignment =>
      "unterminated quoted attribute value in '" ++ assignment ++ "'"

structure Diagnostic where
  line : Nat
  suspicion : Suspicion
  deriving DecidableEq, Repr

def Diagnostic.message (d : Diagnostic) : String :=
  "line " ++ toString d.line ++ ": " ++ d.suspicion.message

end SlimTemplate.Slim
