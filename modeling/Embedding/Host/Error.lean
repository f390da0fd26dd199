import Embedding.Host.Value

/-!
# Errors of the host

Why an operation of the host failed.
-/

namespace Embedding

inductive HostError
  /-- A package could not be found or does not compile. -/
  | loading (package message : String)
  /-- Foreign code died, or left an error behind. The error's value is owned. -/
  | runtime (message : String) (value : Option Value)
  /-- A value has no counterpart on the other side. -/
  | conversion (source target reason : String)
  /-- The session is not in a state for the operation. -/
  | lifecycle (operation reason : String)
  | config (message : String)

inductive HostError.Sort
  | loading
  | runtime
  | conversion
  | lifecycle
  | config
  deriving DecidableEq

namespace HostError

def sort : HostError → HostError.Sort
  | .loading .. => .loading
  | .runtime .. => .runtime
  | .conversion .. => .conversion
  | .lifecycle .. => .lifecycle
  | .config _ => .config

def message : HostError → String
  | .loading package message => s!"cannot load package {package}: {message}"
  | .runtime message _ => s!"foreign runtime error: {message}"
  | .conversion source target reason =>
    s!"type conversion failed: cannot convert {source} to {target}: {reason}"
  | .lifecycle operation reason => s!"{operation}: {reason}"
  | .config message => s!"invalid session configuration: {message}"

/-- A value of another type than the one that was asked for. -/
def mismatch (expected found : String) : HostError := .conversion found expected "type mismatch"

def value? : HostError → Option Value
  | .runtime _ value => value
  | _ => none

def withoutValue : HostError → HostError
  | .runtime message _ => .runtime message none
  | e => e

def handles (e : HostError) : List Handle :=
  match e.value? with
  | some v => v.handles
  | none => []

end HostError

end Embedding
