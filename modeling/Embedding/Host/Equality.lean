import Embedding.Host.Container

/-!
# Equality of values

Plain data is equal by content. Views are equal if they stand for the same cell, which only a running
interpreter can tell of two cells with different numbers.
-/

namespace Embedding

def HostM.toOption {α : Type} (x : HostM α) : HostM (Option α) := do
  match ← x.attempt with
  | .ok a => return some a
  | .error e =>
    HostM.release e.handles
    return none

/-- Whether the handles are known to stand for the same cell. -/
def Handle.sameReferent (a b : Handle) : HostM Bool := do
  let x ← a.identity.toOption
  let y ← b.identity.toOption
  return x.isSome && x = y

/-- Whether the handles have the same cell or are known to stand for the same one. -/
def Handle.sameCell (a b : Handle) : HostM Bool :=
  if a.cell = b.cell then return true else a.sameReferent b

def Callable.equal : Callable → Callable → HostM Bool
  | .code a, .code b => a.sameCell b
  | .method a m, .method b n => if m = n then a.sameReferent b else return false
  | _, _ => return false

def Container.equal : Container → Container → HostM Bool
  | .array a, .array b => a.cell.sameCell b.cell
  | .hash a, .hash b => a.cell.sameCell b.cell
  | _, _ => return false

namespace Value

mutual

def equal : Value → Value → HostM Bool
  | .nothing, .nothing => return true
  | .bool a, .bool b => return a = b
  | .int a, .int b => return a = b
  | .float a, .float b => return a.numEq b
  | .text a, .text b => return a = b
  | .bytes a, .bytes b => return a = b
  | .list as, .list bs => if as.length = bs.length then equalItems as bs else return false
  | .mapping as, .mapping bs => if as.length = bs.length then equalEntries as bs else return false
  | .array a, .array b => a.cell.sameCell b.cell
  | .hash a, .hash b => a.cell.sameCell b.cell
  | .callable a, .callable b => a.equal b
  | .object a, .object b => a.reference.sameReferent b.reference
  | _, _ => return false

/-- Whether the items are equal one by one, up to the first that are not. -/
def equalItems : List Value → List Value → HostM Bool
  | a :: as, b :: bs => do
    if ← equal a b then equalItems as bs else return false
  | _, _ => return true

/-- Whether every entry has an equal one of the same key, up to the first that has none. -/
def equalEntries : List (String × Value) → Dict Value → HostM Bool
  | (key, a) :: as, bs => do
    match bs.get? key with
    | some b => if ← equal a b then equalEntries as bs else return false
    | none => return false
  | [], _ => return true

end

end Value

end Embedding
