import Embedding.Host.Boundary

/-!
# The life of a session

Starting the interpreter of a session, which may fail at any step and then leaves no trace.
-/

namespace Embedding.SessionId

/-- Takes the claim that an interpreter without multiplicity needs. -/
def takeClaim (s : SessionId) : HostM Unit := do
  if (← HostM.session s).capabilities.multiplicity then return
  if (← get).claimed then
    throw (.lifecycle "initialize"
      "another interpreter is already running and this build has no multiplicity")
  modify fun w =>
    { w.update s fun session => { session with claims := true } with claimed := true }

def construct (s : SessionId) : HostM Unit := do
  match ← HostM.ask s (.construct (← HostM.session s).config.interpreterArgs) with
  | .ok _ => modify (World.setStage s .initialized)
  | .error fault =>
    modify (World.releaseClaim s)
    throw (.lifecycle "initialize" s!"interpreter construction failed: {fault.message}")

def require (s : SessionId) (package : String) : HostM Unit := do
  match ← (cross s "load" (.require package)).attempt with
  | .ok () => return
  | .error (.runtime message value) =>
    HostM.release (HostError.runtime message value).handles
    throw (.loading package message)
  | .error e => throw e

/-- Ends an interpreter that could not be started in full. The session can start another one if no
handle is left that could be taken for one of the new interpreter's. -/
def abandon (s : SessionId) : HostM Unit :=
  modify fun w =>
    let w := (w.destruct s).releaseClaim s
    w.setStage s (if (w.session s).liveHandles = 0 then .uninitialized else .shutDown)

/-- Loads packages, and abandons the interpreter at the first that fails. -/
def preload (s : SessionId) : List String → HostM Unit
  | [] => return
  | package :: packages => do
    match ← (s.require package).attempt with
    | .ok () => preload s packages
    | .error e =>
      s.abandon
      throw e

/-- Starts the interpreter, unless it is running. -/
def start (s : SessionId) : HostM Unit := do
  let session ← HostM.session s
  match session.stage with
  | .initialized => return
  | .shutDown =>
    throw (.lifecycle "initialize" "the interpreter session has been shut down")
  | .uninitialized =>
    s.takeClaim
    s.construct
    s.preload session.config.preload

/-- Makes sure that the interpreter is running, and starts it if the configuration lets it. -/
def ensureReady (s : SessionId) (operation : String) : HostM Unit := do
  let session ← HostM.session s
  if session.stage = .uninitialized && session.config.lazy then s.start
  HostM.ensureLive s operation

def shutDown (s : SessionId) : HostM Unit := modify (World.shutDown s)

end Embedding.SessionId
