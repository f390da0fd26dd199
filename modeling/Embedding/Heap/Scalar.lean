import Embedding.Heap.Basic

/-!
# Scalars and references on the heap
-/

namespace Embedding.Heap

def scalar (h : Heap) (c : CellId) : Except Fault Embedding.Scalar := do
  match (← h.cell c).content with
  | .scalar s => .ok s
  | content => .error (.wrongKind .scalar content.kind)

def flags (h : Heap) (c : CellId) : Except Fault Flags := do return (← h.scalar c).flags

def toInt (h : Heap) (c : CellId) : Except Fault Int64 := do return (← h.scalar c).toInt

def toNum (h : Heap) (c : CellId) : Except Fault Binary64 := do return (← h.scalar c).toNum

def isTrue (h : Heap) (c : CellId) : Except Fault Bool := do return (← h.scalar c).isTrue

/-- The text of a reference to a cell: package, kind and number. -/
def describe (h : Heap) (target : CellId) : Except Fault String := do
  let cell ← h.cell target
  let place := s!"{cell.content.kind.refName}(0x{Digits.hex target.index})"
  return match cell.package with
  | some package => s!"{package}={place}"
  | none => place

def toBytes (h : Heap) (c : CellId) : Except Fault (List UInt8) := do
  match (← h.cell c).content with
  | .scalar s =>
    match s.text, s.int, s.num, s.ref with
    | some t, _, _, _ => return t.bytes
    | none, some n, _, _ => return Utf8.encode (toString n.toInt)
    | none, none, some x, _ => return Utf8.encode (Scalar.numText x)
    | none, none, none, some target => return Utf8.encode (← h.describe target)
    | none, none, none, none => return []
  | .glob name => return Utf8.encode s!"*{name}"
  | _ => return Utf8.encode (← h.describe c)

/-- The text of a cell, with U+FFFD for bytes that are none. -/
def toText (h : Heap) (c : CellId) : Except Fault String := do
  return Utf8.decodeLossy (← h.toBytes c)

def target (h : Heap) (c : CellId) : Except Fault CellId := do
  match (← h.cell c).content with
  | .scalar s =>
    match s.ref with
    | some target => return target
    | none => throw (.wrongKind .ref s.kind)
  | content => throw (.wrongKind .ref content.kind)

/-- The package that the target of a reference is blessed into. -/
def className (h : Heap) (c : CellId) : Except Fault (Option String) := do
  if (← h.kind c) = .ref then return (← h.cell (← h.target c)).package
  else return none

/-- The cell that a cell stands for: the target of a reference, and any other cell itself. -/
def identity (h : Heap) (c : CellId) : Except Fault CellId := do
  if (← h.kind c) = .ref then h.target c else return c

def newScalar (s : Embedding.Scalar) : HeapM CellId := alloc (.scalar s)

/-- The value of a cell as a scalar, with a count on what it refers to. A cell that is no scalar has
a reference to itself as its value. -/
def takeValue (c : CellId) : HeapM Embedding.Scalar := do
  let value := match (← query (·.cell c)).content with
    | .scalar s => s
    | _ => .ofRef c
  if let some target := value.ref then retain target
  return value

def copy (c : CellId) : HeapM CellId := do newScalar (← takeValue c)

def assign (dst src : CellId) : HeapM Unit := do
  let _ ← query (·.scalar dst)
  let value ← takeValue src
  let old ← query (·.scalar dst)
  setContent dst (.scalar value)
  if let some target := old.ref then release target

/-- The scalar's value as a number, which a string keeps. -/
def numify (c : CellId) : HeapM Binary64 := do
  let s ← query (·.scalar c)
  setContent c (.scalar s.numified)
  return s.toNum

def newRef (target : CellId) : HeapM CellId := do
  retain target
  newScalar (.ofRef target)

/-- Makes the target of a reference an object of a package. -/
def bless (c : CellId) (package : String) : HeapM Unit := do
  let target ← query (·.target c)
  let cell ← query (·.cell target)
  modify (·.setCell target (some { cell with package }))

def deref (c : CellId) : HeapM CellId := do
  let target ← query (·.target c)
  retain target
  return target

end Embedding.Heap
