import Embedding.Console.Command

/-!
# The state of a console

Registers own what they hold. A command takes clones of it, and what it makes in turn goes to
registers or is released.
-/

namespace Embedding

namespace Console

/-- What a register holds. -/
inductive Item
  | value (v : Value)
  | handle (h : Handle)
  | package (p : Namespace)
  | error (e : HostError)
  | container (c : Container)
  | arrayCursor (c : ArrayCursor)
  | hashCursor (c : HashCursor)
  | cursor (c : Cursor)

namespace Item

def handles : Item → List Handle
  | .value v => v.handles
  | .handle h => [h]
  | .package _ => []
  | .error e => e.handles
  | .container c => [c.cell]
  | .arrayCursor c => [c.array.cell]
  | .hashCursor c => [c.hash.cell]
  | .cursor c => [c.cell]

def release (item : Item) (w : World) : World :=
  match item with
  | .package p => w.unbindNamespace p.session
  | _ => w.releaseAll item.handles

/-- The handle that is the item's own, if there is just one. -/
def handle? : Item → Option Handle
  | .value (.array a) => some a.cell
  | .value (.hash h) => some h.cell
  | .value (.callable c) => some c.anchor
  | .value (.object o) => some o.reference
  | .container c => some c.cell
  | .handle h => some h
  | _ => none

def listing? : Item → Option String
  | .value (.array a) => some a.listing
  | .value (.hash h) => some h.listing
  | .value (.callable c) => some c.listing
  | .value (.object o) => some o.listing
  | .handle h => some h.listing
  | .package p => some p.listing
  | _ => none

end Item

end Console

structure Console where
  world : World := {}
  registers : Dict Console.Item := []
  /-- The sessions whose interpreters can be given fixed answers. -/
  fixable : List SessionId := []

namespace Console

open HostM (holding)

/-- Why a command ends early. -/
inductive Stop
  | skipped
  | failed (e : HostError)

abbrev ConsoleM := ExceptT Stop (StateM Console)

/-- What a command produces: its answer, and items for registers by the ends of their names. -/
structure Product where
  reply : Reply
  items : List (String × Item) := []

namespace ConsoleM
variable {α : Type}

def skip : ConsoleM α := throw .skipped

def act (x : HostM α) : ConsoleM α :=
  ExceptT.mk fun c =>
    let (r, world) := x.run c.world
    (r.mapError .failed, { c with world })

def need (name : String) (part : Item → Option α) : ConsoleM α := do
  match ((← get).registers.get? name).bind part with
  | some a => return a
  | none => skip

def setRegister (name : String) (item : Item) : ConsoleM Unit :=
  modify fun c => { c with registers := c.registers.insert name item }

/-- Puts an item into a register, and then releases what was there. -/
def store (name : String) (item : Item) : ConsoleM Unit := do
  let old := (← get).registers.get? name
  setRegister name item
  if let some old := old then modify fun c => { c with world := old.release c.world }

/-- Releases the handles if the command ends here. -/
def orRelease (hs : List Handle) (x : ConsoleM α) : ConsoleM α :=
  tryCatch x fun stop => do
    act (HostM.release hs)
    throw stop

end ConsoleM

open ConsoleM

/-! ## Values of terms -/

mutual

/-- Makes a value. It owns clones of the handles in registers. -/
def value : Term → ConsoleM Value
  | .register name => do
    let v ← need name fun
      | .value v => some v
      | _ => none
    act (HostM.clone v.handles)
    return v
  | .nothing => return .nothing
  | .bool b => return .bool b
  | .int n => return .int n
  | .float x => return .float x
  | .text s => return .text s
  | .bytes bs => return .bytes bs
  | .list items => return .list (← values items)
  | .mapping entries => return .mapping (← dict entries [])

def values : List Term → ConsoleM (List Value)
  | [] => return []
  | t :: ts => do
    let v ← value t
    let vs ← orRelease v.handles (values ts)
    return v :: vs

/-- Makes entries. A repeated key keeps its first place and its last value. -/
def dict : List (String × Term) → Dict Value → ConsoleM (Dict Value)
  | [], entries => return entries
  | (key, t) :: rest, entries => do
    let v ← orRelease (Value.handlesOfEntries entries) (value t)
    if let some old := entries.get? key then act (HostM.release old.handles)
    dict rest (entries.insert key v)

end

def pairs (entries : List (String × Term)) : ConsoleM (List (String × Value)) := do
  return (entries.map (·.1)).zip (← values (entries.map (·.2)))

def withValue {α : Type} (t : Term) (x : Value → HostM α) : ConsoleM α := do
  let v ← value t
  act (holding v.handles (x v))

def withValues {α : Type} (ts : List Term) (x : List Value → HostM α) : ConsoleM α := do
  let vs ← values ts
  act (holding (Value.handlesOfItems vs) (x vs))

/-! ## Products -/

namespace Product

def ofView (v : View) : Product := { reply := .view v }

def unit : Product := ofView .nothing

def ofBool (b : Bool) : Product := ofView (.bool b)

def ofNat (n : Nat) : Product := ofView (.int n)

def ofText (s : String) : Product := ofView (.text s)

def ofValue (v : Value) : HostM Product := do
  return { reply := .view (← v.view), items := [("", .value v)] }

def ofValues (vs : List Value) : HostM Product := do
  return {
    reply := .view (.list (← Value.viewItems vs))
    items := vs.zipIdx.map fun (v, index) => (s!".{index}", .value v) }

def ofOption (v : Option Value) : HostM Product := do
  return {
    reply := .view (.list (← Value.viewItems v.toList))
    items := v.toList.map fun v => ("", .value v) }

def ofHandle (h : Handle) : Product :=
  { reply := .view (.ofCell h.cell), items := [("", .handle h)] }

def ofItem (item : Item) : Product := { reply := .view .nothing, items := [("", item)] }

def ofStep (key : List View) (v : Value) : HostM Product := do
  return { reply := .view (.list (key ++ [← v.view])), items := [("", .value v)] }

end Product

def errorReply (e : HostError) : HostM Reply := do
  return .error (← e.view) e.sort e.value?.isSome

end Console

end Embedding
