import Embedding.Text.Digits

/-!
# Cells and their kinds

The memory of an interpreter consists of cells. A cell is known by its number, and its kind says
what it holds at the moment.
-/

namespace Embedding

/-- The number of a cell. Numbers are given out once and never reused. -/
structure CellId where
  index : Nat
  deriving DecidableEq

def CellId.display (c : CellId) : String := s!"SV(0x{Digits.hex c.index})"

inductive Kind
  /-- A scalar without a value. -/
  | undef
  | scalar
  /-- A scalar that refers to a cell. -/
  | ref
  | array
  | hash
  | code
  | glob
  deriving DecidableEq

namespace Kind

/-- The name that a reference to a cell of this kind goes by. -/
def refName : Kind → String
  | .undef | .scalar => "SCALAR"
  | .ref => "REF"
  | .array => "ARRAY"
  | .hash => "HASH"
  | .code => "CODE"
  | .glob => "GLOB"

def display : Kind → String
  | .undef => "UNDEF"
  | kind => kind.refName

end Kind

end Embedding
