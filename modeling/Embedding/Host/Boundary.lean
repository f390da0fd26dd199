import Embedding.Host.World

/-!
# The boundary

Every request of the host to an interpreter goes through `cross`. It refuses unless the session is
running, makes the host the owner of every stake in the answer, takes the error that is pending
afterwards, even after a success, and turns faults into errors of the host.
-/

namespace Embedding

open HostM (holding orRelease)

/-- Why a session that is not running refuses. -/
def Stage.refusal (operation : String) : Stage → Option HostError
  | .initialized => none
  | .uninitialized => some (.lifecycle operation "the interpreter session is not initialized")
  | .shutDown => some (.lifecycle operation "the interpreter session has been shut down")

/-- The error of the host that a fault without an error value becomes. -/
def Fault.toHostError (operation : String) (f : Fault) : HostError :=
  match f with
  | .freed _ => .lifecycle operation s!"dangling foreign handle: {f.message}"
  | .notConstructed => .lifecycle operation "the interpreter is not constructed"
  | .wrongKind .. | .unsupported _ | .died _ => .runtime s!"{operation}: {f.message}" none

namespace HostM

def session (s : SessionId) : HostM Session := do return (← get).session s

def ensureLive (s : SessionId) (operation : String) : HostM Unit := do
  match (← session s).stage.refusal operation with
  | some e => throw e
  | none => return

/-- Asks an interpreter, and makes the host the owner of the stakes in the answer. -/
def ask (s : SessionId) {shape : Shape} (request : Request Handle shape) :
    HostM (Except Fault (Answer Handle shape)) := do
  match ← modifyGet (World.ask s (request.map Handle.cell)) with
  | .ok answer =>
    modify (World.adopt s answer.stakes.length)
    return .ok (answer.map fun c => ⟨s, c⟩)
  | .error fault => return .error fault

def stakesOf {shape : Shape} : Except Fault (Answer Handle shape) → List Handle
  | .ok answer => answer.stakes
  | .error _ => []

end HostM

/-- The text of an error value, without the line feeds that end it. -/
def errorText (e : Handle) : HostM String := do
  match ← modifyGet (World.ask e.session (.toBytes e.cell)) with
  | .ok bytes => return Blank.trimNewlines (Utf8.decodeLossy bytes)
  | .error fault => return s!"unprintable error value ({fault.message})"

/-- The error of the host for an error value, which `read` turns into a value of the host. -/
def runtimeError (read : Handle → HostM Value) (e : Handle) : HostM HostError := do
  let message ← errorText e
  match ← (read e).attempt with
  | .ok value => return .runtime message (some value)
  | .error failure =>
    HostM.release failure.handles
    return .runtime message none

/-- Makes a request across the boundary, where `read` reads error values. -/
def crossWith (read : Handle → HostM Value) (s : SessionId) (operation : String) {shape : Shape}
    (request : Request Handle shape) : HostM (Answer Handle shape) := do
  HostM.ensureLive s operation
  let outcome ← HostM.ask s request
  let pending ← HostM.ask s .takeError
  match outcome, pending with
  | .ok answer, .ok none => return answer
  | .ok answer, .ok (some e) =>
    let failure ← runtimeError read e
    HostM.release (e :: answer.stakes)
    throw failure
  | .error (.died value), _ =>
    let e : Handle := ⟨s, value⟩
    modify (World.adopt s 1)
    let failure ← runtimeError read e
    HostM.release (e :: HostM.stakesOf pending)
    throw failure
  | .error fault, _ =>
    HostM.release (HostM.stakesOf pending)
    throw (fault.toHostError operation)
  | .ok answer, .error fault =>
    HostM.release answer.stakes
    throw (fault.toHostError operation)

/-! ## Values of cells -/

section
variable (act : SessionId → (operation : String) → {shape : Shape} → Request Handle shape →
  HostM (Answer Handle shape))

/-- The value of a scalar that is no reference. Of several representations the truth value goes
before the integer, that before the floating-point number, and that before the string. -/
def scalarValueWith (h : Handle) : HostM Value := do
  let flags ← act h.session "to_host" (.flags h)
  if flags.truth then
    return .bool ((← act h.session "to_host" (.toInt h)) ≠ 0)
  else if flags.int then
    return .int (← act h.session "to_host" (.toInt h))
  else if flags.num then
    return .float (← act h.session "to_host" (.toNum h))
  else if flags.text then
    let bytes ← act h.session "to_host" (.toBytes h)
    if flags.utf8 then
      match Utf8.decode bytes with
      | .ok s => return .text s
      | .error fault => throw (.conversion "string scalar" "str" fault.message)
    else return .bytes bytes
  else return .nothing

/-- The value of a reference. An object gets a reference of its own, so that it stays the same when
the scalar is assigned to. -/
def referenceValueWith (h : Handle) : HostM Value := do
  match ← act h.session "to_host" (.className h) with
  | some className =>
    let target ← act h.session "to_host" (.deref h)
    holding [target] do
      return .object ⟨← act h.session "to_host" (.newRef target), className⟩
  | none =>
    let target ← act h.session "to_host" (.deref h)
    orRelease [target] do
      match ← act target.session "kind" (.kind target) with
      | .array => return .array ⟨target⟩
      | .hash => return .hash ⟨target⟩
      | .code => return .callable (.code target)
      | kind =>
        throw (.conversion s!"{kind.refName} reference" "host value"
          "only array, hash, code and blessed references cross the bridge")

def valueWith (h : Handle) : HostM Value := do
  match ← act h.session "to_host" (.kind h) with
  | .undef => return .nothing
  | .scalar => scalarValueWith act h
  | .ref => referenceValueWith act h
  | .array =>
    HostM.clone [h]
    return .array ⟨h⟩
  | .hash =>
    HostM.clone [h]
    return .hash ⟨h⟩
  | .code =>
    HostM.clone [h]
    return .callable (.code h)
  | .glob => throw (.conversion "GLOB" "host value" "globs have no host representation")

end

/-- The value of a cell. Reading may fail with an error whose value is read in turn; `depth` bounds
how often. -/
def valueWithin : (depth : Nat) → Handle → HostM Value
  | 0, _ => throw (.runtime "too many errors" none)
  | depth + 1, h => valueWith (crossWith (valueWithin depth)) h

/-- How many errors may follow on one another while their values are read. -/
def maxErrors : Nat := 16

def cross (s : SessionId) (operation : String) {shape : Shape} (request : Request Handle shape) :
    HostM (Answer Handle shape) :=
  crossWith (valueWithin maxErrors) s operation request

namespace Handle

def value (h : Handle) : HostM Value := valueWith cross h

def refcount (h : Handle) : HostM Nat := cross h.session "refcount" (.refcount h)

def kind (h : Handle) : HostM Kind := cross h.session "kind" (.kind h)

def flags (h : Handle) : HostM Flags := cross h.session "flags" (.flags h)

def identity (h : Handle) : HostM CellId := cross h.session "identity" (.identity h)

/-- Gives the handle up and keeps its count. -/
def intoRaw (h : Handle) : HostM CellId := do
  modify (World.retain h)
  HostM.release [h]
  return h.cell

end Handle

/-- The values of cells, from left to right up to the first that has none. -/
def valuesOf : List Handle → HostM (List Value)
  | [] => return []
  | h :: hs => do
    let v ← h.value
    let vs ← orRelease v.handles (valuesOf hs)
    return v :: vs

end Embedding
