import Embedding.Host.Crossing

/-!
# Arrays and hashes of an interpreter

Every read looks at the container anew. A write stores a copy and takes its value over: the value is
released as soon as there is a cell with the copy, or when the write fails. A cursor takes one item
at a time and sees what has changed in the meantime.
-/

namespace Embedding

open HostM (holding orRelease)

/-- More than the number of items or entries that a cell has. -/
def HostM.itemBound (h : Handle) : HostM Nat := do
  let heap := ((← get).session h.session).engine.interpreter.heap
  match (heap.bind (·.cell? h.cell)).map Cell.content with
  | some (.array items) => return items.size + 1
  | some (.hash entries _) => return entries.length + 1
  | _ => return 1

/-- The value of the cell, if there is one, and the end of the handle. -/
def takeValue? : Option Handle → HostM (Option Value)
  | some h => some <$> holding [h] h.value
  | none => return none

namespace ArrayView

/-- The item at an index, `nothing` past the end. -/
def get (a : ArrayView) (index : Nat) : HostM Value := do
  let item ← cross a.cell.session "array get" (.arrayFetch a.cell index)
  Value.ofOption <$> takeValue? item

/-- Stores a copy of the value, which is taken over. A store past the end fills the gap. -/
def set (a : ArrayView) (index : Nat) (v : Value) : HostM Unit := do
  let item ← holding v.handles (newCell a.cell.session v)
  holding [item] do cross a.cell.session "array set" (.arrayStore a.cell index item)

def length (a : ArrayView) : HostM Nat :=
  cross a.cell.session "array length" (.arrayLength a.cell)

/-- Stores a copy of the value behind the last item. The value is taken over. -/
def push (a : ArrayView) (v : Value) : HostM Unit := do
  let index ← orRelease v.handles a.length
  a.set index v

/-- Pushes values one after another, up to the first that cannot be stored. All are taken over. -/
def pushAll (a : ArrayView) : List Value → HostM Unit
  | [] => return
  | v :: vs => do
    match ← (a.push v).attempt with
    | .ok () => a.pushAll vs
    | .error e =>
      HostM.release (Value.handlesOfItems vs)
      throw e

def pop (a : ArrayView) : HostM (Option Value) := do
  takeValue? (← cross a.cell.session "array pop" (.arrayPop a.cell))

def clear (a : ArrayView) : HostM Unit :=
  cross a.cell.session "array clear" (.arrayClear a.cell)

end ArrayView

/-- A walk over an array. The view is the cursor's own. -/
structure ArrayCursor where
  array : ArrayView
  /-- The index of the next item, none if the array could not be read. -/
  position : Option Nat := some 0

namespace ArrayCursor

/-- The next item or why it has no value; none at the end. -/
def next (c : ArrayCursor) : HostM (Option (Except HostError Value) × ArrayCursor) := do
  match ← c.array.length.attempt with
  | .error e => return (some (.error e), { c with position := none })
  | .ok length =>
    match c.position with
    | none => return (none, c)
    | some index =>
      if index < length then
        return (some (← (c.array.get index).attempt), { c with position := some (index + 1) })
      else return (none, c)

/-- The items from here on, up to the first that has no value. -/
def toList : (fuel : Nat) → ArrayCursor → HostM (List Value)
  | 0, _ => return []
  | fuel + 1, c => do
    match ← c.next with
    | (none, _) => return []
    | (some (.error e), _) => throw e
    | (some (.ok v), c) =>
      let vs ← orRelease v.handles (toList fuel c)
      return v :: vs

end ArrayCursor

namespace ArrayView

def cursor (a : ArrayView) : HostM ArrayCursor := do
  HostM.clone [a.cell]
  return { array := a }

def toList (a : ArrayView) : HostM (List Value) := do
  let bound ← HostM.itemBound a.cell
  let c ← a.cursor
  holding [c.array.cell] (c.toList bound)

end ArrayView

namespace HashView

/-- The value of a key, `nothing` if the key is not there. -/
def get (h : HashView) (key : String) : HostM Value := do
  let value ← cross h.cell.session "hash get" (.hashFetch h.cell key)
  Value.ofOption <$> takeValue? value

def set (h : HashView) (key : String) (v : Value) : HostM Unit := do
  let value ← holding v.handles (newCell h.cell.session v)
  holding [value] do cross h.cell.session "hash set" (.hashStore h.cell key value)

/-- Stores entries one after another, up to the first that cannot be stored. All are taken over. -/
def setAll (h : HashView) : List (String × Value) → HostM Unit
  | [] => return
  | (key, v) :: entries => do
    match ← (h.set key v).attempt with
    | .ok () => h.setAll entries
    | .error e =>
      HostM.release (Value.handlesOfEntries entries)
      throw e

def length (h : HashView) : HostM Nat :=
  cross h.cell.session "hash length" (.hashLength h.cell)

def contains (h : HashView) (key : String) : HostM Bool :=
  cross h.cell.session "hash exists" (.hashContains h.cell key)

def delete (h : HashView) (key : String) : HostM (Option Value) := do
  takeValue? (← cross h.cell.session "hash delete" (.hashDelete h.cell key))

def clear (h : HashView) : HostM Unit :=
  cross h.cell.session "hash clear" (.hashClear h.cell)

end HashView

/-- How far a walk over a hash has come. -/
inductive Walk
  | fresh
  | started
  | ended
  deriving DecidableEq

/-- A walk over a hash. The view is the cursor's own, but the place is the hash's: a second walk takes
it over. -/
structure HashCursor where
  hash : HashView
  walk : Walk := .fresh

namespace HashCursor

/-- The next entry, after a rewind if this is the first. -/
def step (c : HashCursor) : HostM (Option (String × Value)) := do
  if c.walk = .fresh then
    cross c.hash.cell.session "hash iterate" (.hashRewind c.hash.cell)
  match ← cross c.hash.cell.session "hash iterate" (.hashNext c.hash.cell) with
  | some (key, value) => return some (key, ← holding [value] value.value)
  | none => return none

/-- The next entry or why it has no value; none at the end. The first entry without a value ends the
walk. -/
def next (c : HashCursor) : HostM (Option (Except HostError (String × Value)) × HashCursor) := do
  if c.walk = .ended then return (none, c)
  match ← c.step.attempt with
  | .ok (some entry) => return (some (.ok entry), { c with walk := .started })
  | .ok none => return (none, { c with walk := .ended })
  | .error e => return (some (.error e), { c with walk := .ended })

/-- The entries from here on, up to the first that has no value. -/
def toEntries : (fuel : Nat) → HashCursor → HostM (List (String × Value))
  | 0, _ => return []
  | fuel + 1, c => do
    match ← c.next with
    | (none, _) => return []
    | (some (.error e), _) => throw e
    | (some (.ok (key, v)), c) =>
      let entries ← orRelease v.handles (toEntries fuel c)
      return (key, v) :: entries

/-- The keys from here on, up to the first whose value cannot be read. -/
def toKeys : (fuel : Nat) → HashCursor → HostM (List String)
  | 0, _ => return []
  | fuel + 1, c => do
    match ← c.next with
    | (none, _) => return []
    | (some (.error e), _) => throw e
    | (some (.ok (key, v)), c) =>
      HostM.release v.handles
      return key :: (← toKeys fuel c)

end HashCursor

namespace HashView

def cursor (h : HashView) : HostM HashCursor := do
  HostM.clone [h.cell]
  return { hash := h }

/-- Collects entries. The value of a repeated key gives way to the next one and is released. -/
def collect : List (String × Value) → Dict Value → HostM (Dict Value)
  | [], entries => return entries
  | (key, v) :: rest, entries => do
    if let some old := entries.get? key then HostM.release old.handles
    collect rest (entries.insert key v)

def toDict (h : HashView) : HostM (Dict Value) := do
  let bound ← HostM.itemBound h.cell
  let c ← h.cursor
  holding [c.hash.cell] do collect (← c.toEntries bound) []

def keys (h : HashView) : HostM (List String) := do
  let bound ← HostM.itemBound h.cell
  let c ← h.cursor
  holding [c.hash.cell] (c.toKeys bound)

end HashView

/-! ## Containers of either sort -/

/-- What an item of a container is found by. -/
inductive Key
  | index (n : Nat)
  | name (s : String)
  deriving DecidableEq

namespace Key

def display : Key → String
  | .index n => toString n
  | .name s => Quoted.quote s

/-- The index that a key stands for in an array. A name must be a numeral. -/
def toIndex : Key → Except HostError Nat
  | .index n => .ok n
  | .name s =>
    match Digits.size? s.toList with
    | some n => .ok n
    | none => .error (.conversion "str" "array index" s!"{Quoted.quote s} is not an index")

/-- The name that a key stands for in a hash. -/
def toName : Key → String
  | .index n => toString n
  | .name s => s

end Key

inductive Container
  | array (view : ArrayView)
  | hash (view : HashView)
  deriving DecidableEq

namespace Container

def cell : Container → Handle
  | .array view => view.cell
  | .hash view => view.cell

def get (c : Container) (key : Key) : HostM Value := do
  match c with
  | .array view => view.get (← ofExcept key.toIndex)
  | .hash view => view.get key.toName

def set (c : Container) (key : Key) (v : Value) : HostM Unit := do
  match c with
  | .array view => do
    let index ← orRelease v.handles (ofExcept key.toIndex)
    view.set index v
  | .hash view => view.set key.toName v

def length : Container → HostM Nat
  | .array view => view.length
  | .hash view => view.length

end Container

inductive Cursor
  | array (cursor : ArrayCursor)
  | hash (cursor : HashCursor)

namespace Cursor

def cell : Cursor → Handle
  | .array c => c.array.cell
  | .hash c => c.hash.cell

def next : Cursor → HostM (Option (Except HostError (Key × Value)) × Cursor)
  | .array c => do
    let (item, c') ← c.next
    return (item.map (·.map fun v => (.index (c.position.getD 0), v)), .array c')
  | .hash c => do
    let (entry, c) ← c.next
    return (entry.map (·.map fun (key, v) => (.name key, v)), .hash c)

end Cursor

def Container.cursor : Container → HostM Cursor
  | .array view => .array <$> view.cursor
  | .hash view => .hash <$> view.cursor

end Embedding
