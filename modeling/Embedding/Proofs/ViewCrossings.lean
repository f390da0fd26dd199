import Embedding.Proofs.StoredViews
import Embedding.Proofs.ViewEquality

/-!
# Views cross and come back

A host hands a view to an interpreter, or stores it in a variable, an array or a hash, and reads it back
from there. The main statement is that it gets a view of the same cell, and that nothing was copied but
scalars. What it gets is an object if the cell has a class by then, and else the view of a cell of its
kind. So a view of an object comes back as another sort of view, or not at all, if a method has made its
reference one to a cell without a class.
-/

namespace Embedding

open Heap Console

/-- A location for a value: a scalar variable, which is named by itself or within a package, an item of an
array, or an entry of a hash. -/
inductive Location
  | global (s : SessionId) (name : String) (scalar : (Name.parseGlobal name).1 = .scalar)
  | member (p : Namespace) (name : String)
    (scalar : (Name.parseGlobal (Name.qualifyIn p.name name)).1 = .scalar)
  | item (view : ArrayView) (index : Nat)
  | entry (view : HashView) (key : String)

namespace Location

def session : Location → SessionId
  | .global s .. => s
  | .member p .. => p.session
  | .item view _ => view.cell.session
  | .entry view _ => view.cell.session

/-- The handles that a host needs to get to the location. -/
def handles : Location → List Handle
  | .global .. | .member .. => []
  | .item view _ => [view.cell]
  | .entry view _ => [view.cell]

def fetch : Location → HostM Value
  | .global s name _ => s.getGlobal name
  | .member p name _ => p.getVariable name
  | .item view index => view.get index
  | .entry view key => view.get key

def cell? (h : Heap) : Location → Option CellId
  | .global _ name _ => h.named? name
  | .member p name _ => h.named? (Name.qualifyIn p.name name)
  | .item view index => (h.items view.cell.cell).toOption.bind (·[index]?)
  | .entry view key => (h.entries view.cell.cell).toOption.bind (·.get? key)

end Location

variable {origin w w' : World} {hs : List Handle} {s : SessionId} {setup : Setup} {h h' : Heap} {v : Value}
  {location : Location} {t : CellId} {σ : List CellId}

/-! ## Reading back -/

section
variable (hk : w.KeptOn s setup h) (hq : h.Quiet) (hsound : h.Sound σ)
include hk hq hsound

end

/-! ## Storing -/

end Embedding
