import Embedding.Host.Equality
import Embedding.Host.Session

/-!
# What a console shows

A view is a value as it looked at one moment. It owns nothing.
-/

namespace Embedding

inductive View
  | nothing
  | bool (b : Bool)
  | int (n : Int)
  | float (x : Binary64)
  | text (s : String)
  | bytes (bytes : List UInt8)
  | list (items : List View)
  | mapping (entries : List (String × View))
  | flags (flags : Flags)
  | address (cell : CellId)
  | array (cell : CellId)
  | hash (cell : CellId)
  | code (cell : CellId)
  | method (name : String)
  /-- An object, and its cell if that could be told. -/
  | object (className : String) (identity : Option CellId)
  | error (sort : HostError.Sort) (message : String) (value : Option View)

namespace View

instance : Inhabited View := ⟨.nothing⟩

def ofCell (c : CellId) : View := .text c.display

def ellipsis : View := .text "..."

end View

namespace Value

mutual

/-- Looks at a value. Only the identity of an object is asked for; containers stay closed. -/
def view : Value → HostM View
  | .nothing => return .nothing
  | .bool b => return .bool b
  | .int n => return .int n.toInt
  | .float x => return .float x
  | .text s => return .text s
  | .bytes bs => return .bytes bs
  | .list items => return .list (← viewItems items)
  | .mapping entries => return .mapping (← viewEntries entries)
  | .array a => return .array a.cell.cell
  | .hash h => return .hash h.cell.cell
  | .callable (.code cell) => return .code cell.cell
  | .callable (.method _ name) => return .method name
  | .object o => return .object o.className (← o.identity.toOption)

def viewItems : List Value → HostM (List View)
  | [] => return []
  | v :: vs => do
    let x ← view v
    return x :: (← viewItems vs)

def viewEntries : List (String × Value) → HostM (List (String × View))
  | [] => return []
  | (key, v) :: entries => do
    let x ← view v
    return (key, x) :: (← viewEntries entries)

end

end Value

def HostError.view (e : HostError) : HostM View := do
  let value ← match e.value? with
    | some v => some <$> v.view
    | none => pure none
  return .error e.sort e.message value

/-- Reads, and looks at the error if that fails. -/
def HostM.orView {α : Type} (read : HostM α) (look : α → HostM View) : HostM View := do
  match ← read.attempt with
  | .ok a => look a
  | .error e => holding e.handles e.view

/-- Looks into arrays and hashes, `depth` levels deep. -/
def Value.inspect : (depth : Nat) → Value → HostM View
  | 0, .array _ | 0, .hash _ => return .ellipsis
  | depth + 1, .array a =>
    HostM.orView a.toList fun items =>
      HostM.holding (handlesOfItems items) do
        return .list (← items.mapM (inspect depth))
  | depth + 1, .hash h =>
    HostM.orView h.toDict fun entries =>
      HostM.holding (handlesOfEntries entries) do
        return .mapping (← entries.mapM fun (key, v) => do return (key, ← inspect depth v))
  | _, v => v.view

end Embedding
