import Embedding.Cell.Kind

/-!
# Faults of an interpreter

Why an interpreter could not do what it was asked.
-/

namespace Embedding

inductive Fault
  /-- Foreign code died. The caller receives one stake in the cell that holds the error. -/
  | died (value : CellId)
  | freed (cell : CellId)
  | wrongKind (expected found : Kind)
  | notConstructed
  | unsupported (what : String)
  deriving DecidableEq

namespace Fault

def message : Fault → String
  | .died value => s!"foreign code died with {value.display}"
  | .freed cell => s!"{cell.display} has already been freed"
  | .wrongKind expected found => s!"expected {expected.display} cell, found {found.display}"
  | .notConstructed => "interpreter is not constructed"
  | .unsupported what => s!"unsupported operation: {what}"

/-- The cell that holds the error of foreign code that died. -/
def diedValue? : Fault → Option CellId
  | .died value => some value
  | _ => none

end Fault

end Embedding
