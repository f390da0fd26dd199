import Embedding.Host.Call

/-!
# Global variables

The sigil of a name says which of the symbols of that name is meant; a name without one is a scalar.
-/

namespace Embedding

open HostM (holding orRelease)

def globalCell (s : SessionId) (operation : String) (slot : Slot) (qualified : String)
    (create : Bool) : HostM (Option Handle) :=
  cross s operation (.global slot qualified create)

/-- The value of a global symbol, `nothing` if there is none. -/
def readGlobal (s : SessionId) (name : String) : HostM Value := do
  let (slot, qualified) := Name.parseGlobal name
  let cell ← globalCell s "get_global" slot qualified false
  match slot with
  | .scalar => Value.ofOption <$> takeValue? cell
  | .array => return Value.ofOption (cell.map fun h => .array ⟨h⟩)
  | .hash => return Value.ofOption (cell.map fun h => .hash ⟨h⟩)
  | .code => return Value.ofOption (cell.map fun h => .callable (.code h))

/-- The cell of a global variable, which is made if it is not there. -/
def createGlobal (s : SessionId) (slot : Slot) (qualified : String) : HostM Handle := do
  match ← globalCell s "set_global" slot qualified true with
  | some h => return h
  | none => throw (.runtime s!"cannot create global {qualified}" none)

def arrayItems : Value → HostM (List Value)
  | .list items => do
    HostM.clone (Value.handlesOfItems items)
    return items
  | .array view => view.toList
  | .nothing => return []
  | v =>
    throw (.conversion v.typeName "array" "only lists and arrays can be assigned to an array")

def hashEntries : Value → HostM (Dict Value)
  | .mapping entries => do
    HostM.clone (Value.handlesOfEntries entries)
    return entries
  | .hash view => view.toDict
  | .nothing => return []
  | v =>
    throw (.conversion v.typeName "hash" "only mappings and hashes can be assigned to a hash")

/-- Assigns copies of a value to a global variable, which is made if it is not there. -/
def writeGlobal (s : SessionId) (name : String) (v : Value) : HostM Unit := do
  let (slot, qualified) := Name.parseGlobal name
  match slot with
  | .scalar =>
    let source ← newCell s v
    holding [source] do
      let target ← createGlobal s .scalar qualified
      holding [target] do cross s "set_global" (.assign target source)
  | .array =>
    let items ← arrayItems v
    let target ← orRelease (Value.handlesOfItems items) do
      let target : ArrayView := ⟨← createGlobal s .array qualified⟩
      orRelease [target.cell] target.clear
      return target
    holding [target.cell] (target.pushAll items)
  | .hash =>
    let entries ← hashEntries v
    let target ← orRelease (Value.handlesOfEntries entries) do
      let target : HashView := ⟨← createGlobal s .hash qualified⟩
      orRelease [target.cell] target.clear
      return target
    holding [target.cell] (target.setAll entries)
  | .code =>
    throw (.conversion v.typeName "subroutine" "subroutines cannot be assigned from the host")

def lookUpSub (s : SessionId) (name : String) : HostM Callable := do
  let qualified := (Name.parseGlobal (Name.stripAmpersand name)).2
  match ← globalCell s "function" .code qualified false with
  | some h => return .code h
  | none => throw (.runtime s!"Undefined subroutine &{qualified} called" none)

end Embedding
