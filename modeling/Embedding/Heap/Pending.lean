import Embedding.Heap.Symbol

/-!
# The pending error

Foreign code that fails leaves its error in the variable `$@`. The error is pending while that
variable is true.
-/

namespace Embedding

def HeapM.attempt {α : Type} (x : HeapM α) : HeapM (Except Fault α) :=
  ExceptT.mk fun h => let (r, h') := x.run h; (.ok r, h')

namespace Heap

/-- The qualified name of the variable that holds the pending error. -/
def errorName : String := "main::@"

/-- The heap that an interpreter starts with: no error is pending, and there are no other symbols. -/
def initial : Heap where
  cells := #[none, some { refcount := 1, content := .scalar (.ofBytes [] false) }]
  symbols := { scalars := [(errorName, ⟨1⟩)] }

def errorCell (h : Heap) : Except Fault CellId :=
  match h.symbol? .scalar errorName with
  | some c => .ok c
  | none => .error .notConstructed

def setError (value : CellId) : HeapM Unit := do
  assign (← query errorCell) value

def clearError : HeapM Unit := do
  let empty ← newScalar (.ofBytes [] false)
  let result ← (setError empty).attempt
  release empty
  ofExcept result

/-- Takes the pending error out of the heap, if there is one. -/
def takeError : HeapM (Option CellId) := do
  let c ← query errorCell
  if ← query (·.isTrue c) then
    let value ← copy c
    clearError
    return some value
  else return none

/-- Dies with a message: it becomes the pending error, and the caller receives its cell. -/
def die {α : Type} (message : String) : HeapM α := do
  let value ← newScalar (.ofText message)
  setError value
  throw (.died value)

end Heap

end Embedding
