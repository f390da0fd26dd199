import Embedding.Host.Global
import Embedding.Host.Lifecycle

/-!
# Operations of a session

What the owner of a session can do with it. Each operation first makes sure that the interpreter is
running.
-/

namespace Embedding

open HostM (holding orRelease)

/-- A package of a session. A namespace is bound to its session until it is unbound. -/
structure Namespace where
  session : SessionId
  name : String
  deriving DecidableEq

namespace Namespace

def listing (p : Namespace) : String := s!"Package({Quoted.quote p.name})"

def function (p : Namespace) (name : String) : HostM Callable :=
  lookUpSub p.session (Name.qualifyIn p.name name)

def call (p : Namespace) (name : String) (args : List Value) : HostM (List Value) := do
  let c ← p.function name
  holding [c.anchor] do c.call args

/-- The method of that name, bound to the name of the package. -/
def method (p : Namespace) (name : String) : HostM Callable := do
  let receiver ← cross p.session "class method" (.newBytes (Utf8.encode p.name) true)
  return .method receiver name

def callMethod (p : Namespace) (name : String) (args : List Value) : HostM (List Value) := do
  let c ← p.method name
  holding [c.anchor] do c.call args

def construct (p : Namespace) (args : List Value) : HostM Value := do
  let c ← p.method "new"
  holding [c.anchor] do c.callOne args

def getVariable (p : Namespace) (name : String) : HostM Value :=
  readGlobal p.session (Name.qualifyIn p.name name)

def setVariable (p : Namespace) (name : String) (v : Value) : HostM Unit :=
  writeGlobal p.session (Name.qualifyIn p.name name) v

end Namespace

def Session.listing (s : Session) : String :=
  let stage := match s.stage with
    | .uninitialized => "Uninitialized"
    | .initialized => "Initialized"
    | .shutDown => "ShutDown"
  let c := s.capabilities
  s!"Session \x7b state: {stage}, capabilities: Capabilities \x7b multiplicity: {c.multiplicity}, "
    ++ s!"thread_safe: {c.threadSafe} \x7d, live_handles: {s.liveHandles} \x7d"

namespace SessionId

def load (s : SessionId) (package : String) : HostM Namespace := do
  s.ensureReady "load"
  s.require package
  modify (World.bindNamespace s)
  return ⟨s, package⟩

def getGlobal (s : SessionId) (name : String) : HostM Value := do
  s.ensureReady "get_global"
  readGlobal s name

def setGlobal (s : SessionId) (name : String) (v : Value) : HostM Unit := do
  s.ensureReady "set_global"
  writeGlobal s name v

/-- Runs source text in list context. -/
def eval (s : SessionId) (source : String) : HostM (List Value) := do
  s.ensureReady "eval"
  let results ← cross s "eval" (.eval source .list)
  holding results do valuesOf results

def function (s : SessionId) (name : String) : HostM Callable := do
  s.ensureReady "function"
  lookUpSub s name

def call (s : SessionId) (name : String) (args : List Value) : HostM (List Value) := do
  let c ← s.function name
  holding [c.anchor] do c.call args

def toForeign (s : SessionId) (v : Value) : HostM Handle := do
  s.ensureReady crossing
  newCell s v

def toHost (s : SessionId) (h : Handle) : HostM Value :=
  if h.session = s then h.value
  else
    throw (.conversion "foreign handle" "host value"
      "the handle belongs to a different interpreter session")

/-- A new array with copies of the items, which are taken over. -/
def newArray (s : SessionId) (items : List Value) : HostM ArrayView := do
  let array : ArrayView ← orRelease (Value.handlesOfItems items) do
    s.ensureReady "new_array"
    return ⟨← cross s "new_array" .newArray⟩
  orRelease [array.cell] (array.pushAll items)
  return array

/-- A new hash with copies of the entries, which are taken over. -/
def newHash (s : SessionId) (entries : List (String × Value)) : HostM HashView := do
  let hash : HashView ← orRelease (Value.handlesOfEntries entries) do
    s.ensureReady "new_hash"
    return ⟨← cross s "new_hash" .newHash⟩
  orRelease [hash.cell] (hash.setAll entries)
  return hash

end SessionId

end Embedding
