import Embedding.Heap.Scalar

/-!
# Arrays and hashes on the heap

A container holds copies of the values that are stored in it, in cells of their own.
-/

namespace Embedding.Heap

def items (h : Heap) (c : CellId) : Except Fault (Array CellId) := do
  match (← h.cell c).content with
  | .array items => .ok items
  | content => .error (.wrongKind .array content.kind)

def arrayLength (h : Heap) (c : CellId) : Except Fault Nat := do return (← h.items c).size

/-- The item's own cell, with a count on it. -/
def arrayFetch (c : CellId) (index : Nat) : HeapM (Option CellId) := do
  match (← query (·.items c))[index]? with
  | some item =>
    retain item
    return some item
  | none => return none

/-- Stores a copy of the value. A store past the end fills the gap with undefined scalars. -/
def arrayStore (c : CellId) (index : Nat) (value : CellId) : HeapM Unit := do
  let length ← query (·.arrayLength c)
  let item ← copy value
  let fill ← allocUndefs (index - length)
  let items := (← query (·.items c)) ++ fill
  match items[index]? with
  | some old =>
    setContent c (.array (items.setIfInBounds index item))
    release old
  | none => setContent c (.array (items.push item))

/-- Takes the last item out of the array, with the array's count on it. -/
def arrayPop (c : CellId) : HeapM (Option CellId) := do
  let items ← query (·.items c)
  setContent c (.array items.pop)
  return items.back?

def arrayClear (c : CellId) : HeapM Unit := do
  let items ← query (·.items c)
  setContent c (.array #[])
  releaseAll items.toList

def hash (h : Heap) (c : CellId) : Except Fault (Dict CellId × Nat) := do
  match (← h.cell c).content with
  | .hash entries cursor => .ok (entries, cursor)
  | content => .error (.wrongKind .hash content.kind)

def entries (h : Heap) (c : CellId) : Except Fault (Dict CellId) := do return (← h.hash c).1

def hashLength (h : Heap) (c : CellId) : Except Fault Nat := do return (← h.entries c).length

def hashContains (h : Heap) (c : CellId) (key : String) : Except Fault Bool := do
  return (← h.entries c).contains key

def hashFetch (c : CellId) (key : String) : HeapM (Option CellId) := do
  match (← query (·.entries c)).get? key with
  | some value =>
    retain value
    return some value
  | none => return none

def hashStore (c : CellId) (key : String) (value : CellId) : HeapM Unit := do
  let _ ← query (·.hash c)
  let item ← copy value
  let (entries, cursor) ← query (·.hash c)
  setContent c (.hash (entries.insert key item) cursor)
  if let some old := entries.get? key then release old

/-- Takes the value out of the hash, with the hash's count on it. The iteration stays at its place. -/
def hashDelete (c : CellId) (key : String) : HeapM (Option CellId) := do
  let (entries, cursor) ← query (·.hash c)
  setContent c (.hash (entries.erase key) cursor)
  return entries.get? key

def hashClear (c : CellId) : HeapM Unit := do
  let (entries, _) ← query (·.hash c)
  setContent c (.hash [] 0)
  releaseAll entries.values

def hashRewind (c : CellId) : HeapM Unit := do
  let (entries, _) ← query (·.hash c)
  setContent c (.hash entries 0)

/-- The entry at the place of the iteration, with a count on its value. -/
def hashNext (c : CellId) : HeapM (Option (String × CellId)) := do
  let (entries, cursor) ← query (·.hash c)
  match entries[cursor]? with
  | some (key, value) =>
    setContent c (.hash entries (cursor + 1))
    retain value
    return some (key, value)
  | none => return none

end Embedding.Heap
