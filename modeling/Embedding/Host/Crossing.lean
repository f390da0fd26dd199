import Embedding.Host.Boundary

/-!
# Values for an interpreter

Plain data is copied into new cells. Lists and mappings become arrays and hashes, and like views they
cross as references.
-/

namespace Embedding

open HostM (holding)

/-- What the boundary calls the making of a cell. -/
def crossing : String := "to_foreign"

def newReference (s : SessionId) (target : Handle) : HostM Handle :=
  cross s crossing (.newRef target)

/-- Refuses a view of a cell of another session. -/
def ensureOwn (s : SessionId) (v : Value) (h : Handle) : HostM Unit :=
  if h.session = s then return
  else
    throw (.conversion v.typeName "foreign value"
      "the value belongs to a different interpreter session")

mutual

def newCell (s : SessionId) : Value → HostM Handle
  | .nothing => cross s crossing .newUndef
  | .bool b => cross s crossing (.newBool b)
  | .int n => cross s crossing (.newInt n)
  | .float x => cross s crossing (.newNum x)
  | .text t => cross s crossing (.newBytes (Utf8.encode t) true)
  | .bytes bs => cross s crossing (.newBytes bs false)
  | .list items => do
    let array ← cross s crossing .newArray
    holding [array] do
      storeItems s array 0 items
      newReference s array
  | .mapping entries => do
    let hash ← cross s crossing .newHash
    holding [hash] do
      storeEntries s hash entries
      newReference s hash
  | .array view => do
    ensureOwn s (.array view) view.cell
    newReference s view.cell
  | .hash view => do
    ensureOwn s (.hash view) view.cell
    newReference s view.cell
  | .callable (.code cell) => do
    ensureOwn s (.callable (.code cell)) cell
    newReference s cell
  | .callable (.method ..) =>
    throw (.conversion "bound method" "foreign value"
      "a method bound to its receiver has no interpreter representation")
  | .object view => do
    ensureOwn s (.object view) view.reference
    let target ← cross s crossing (.deref view.reference)
    holding [target] do newReference s target

def storeItems (s : SessionId) (array : Handle) : (index : Nat) → List Value → HostM Unit
  | _, [] => return
  | index, v :: vs => do
    let item ← newCell s v
    holding [item] do cross s crossing (.arrayStore array index item)
    storeItems s array (index + 1) vs

def storeEntries (s : SessionId) (hash : Handle) : List (String × Value) → HostM Unit
  | [] => return
  | (key, v) :: entries => do
    let item ← newCell s v
    holding [item] do cross s crossing (.hashStore hash key item)
    storeEntries s hash entries

end

/-- New cells with the values, from left to right up to the first that cannot be made. -/
def newCells (s : SessionId) : List Value → HostM (List Handle)
  | [] => return []
  | v :: vs => do
    let h ← newCell s v
    let hs ← HostM.orRelease [h] (newCells s vs)
    return h :: hs

end Embedding
