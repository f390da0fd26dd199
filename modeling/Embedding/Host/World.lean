import Embedding.Engine
import Embedding.Host.Config

/-!
# Sessions

A session runs one interpreter for the host. It is kept alive by its owner, by the handles in its
cells and by the namespaces that were bound to it; when the last of them is gone, it is shut down.
-/

namespace Embedding

/-- A session starts uninitialized and ends shut down, and never goes back from there. -/
inductive Stage
  | uninitialized
  | initialized
  | shutDown
  deriving DecidableEq

def Stage.display : Stage → String
  | .uninitialized => "uninitialized"
  | .initialized => "initialized"
  | .shutDown => "shut down"

structure Session where
  engine : Engine
  config : Config := {}
  stage : Stage := .uninitialized
  liveHandles : Nat := 0
  namespaces : Nat := 0
  owned : Bool := true
  /-- Whether the session has the claim that only one session can have. -/
  claims : Bool := false

namespace Session

instance : Inhabited Session := ⟨{ engine := { interpreter := {} }, owned := false }⟩

def capabilities (s : Session) : Capabilities := s.engine.interpreter.setup.capabilities

/-- Asks the interpreter of the session, whatever state the session is in. -/
def ask {shape : Shape} (request : Request CellId shape) (s : Session) :
    Except Fault (Answer CellId shape) × Session :=
  let ⟨engine, config, stage, liveHandles, namespaces, owned, claims⟩ := s
  let (answer, engine) := engine.perform request
  (answer, ⟨engine, config, stage, liveHandles, namespaces, owned, claims⟩)

/-- Whether anything keeps the session alive. -/
def isKept (s : Session) : Bool := s.owned || s.liveHandles ≠ 0 || s.namespaces ≠ 0

end Session

structure World where
  sessions : Array Session := #[]
  /-- Whether a session has the claim that interpreters without multiplicity need. -/
  claimed : Bool := false

namespace World

def session (w : World) (s : SessionId) : Session := w.sessions[s.index]?.getD default

def update (w : World) (s : SessionId) (f : Session → Session) : World :=
  { w with sessions := w.sessions.modify s.index f }

theorem session_update (w : World) (s t : SessionId) (f : Session → Session)
    (hs : s.index < w.sessions.size) :
    (w.update s f).session t = if s = t then f (w.session s) else w.session t := by
  obtain ⟨i⟩ := s
  obtain ⟨j⟩ := t
  by_cases hij : i = j
  · subst hij
    have : i < w.sessions.size := hs
    simp [session, update, this, Array.getElem_modify]
  · simp [session, update, Array.getElem?_modify, hij]

theorem session_update_of_ne (w : World) {s t : SessionId} (f : Session → Session) (hst : s ≠ t) :
    (w.update s f).session t = w.session t := by
  obtain ⟨i⟩ := s
  obtain ⟨j⟩ := t
  have hij : i ≠ j := fun e => hst (e ▸ rfl)
  simp [session, update, Array.getElem?_modify, hij]

/-- Adds a session, which its owner has not used yet. -/
def create (engine : Engine) (config : Config) (w : World) : World :=
  { w with sessions := w.sessions.push { engine, config } }

theorem session_create (w : World) (engine : Engine) (config : Config) (s : SessionId) :
    (w.create engine config).session s =
      if s.index = w.sessions.size then { engine, config } else w.session s := by
  by_cases hs : s.index = w.sessions.size
  · simp [session, create, hs]
  · simp [session, create, Array.getElem?_push, hs]

@[noinline] def take (w : World) (s : SessionId) : Session × World :=
  (w.session s, w.update s fun _ => default)

/-- Asks the interpreter of a session, whatever state the session is in. Meanwhile the session is
taken out of the world, so that nothing but the interpreter holds the heap that it changes. -/
def ask (s : SessionId) {shape : Shape} (request : Request CellId shape) (w : World) :
    Except Fault (Answer CellId shape) × World :=
  let (session, w) := w.take s
  let (answer, session) := session.ask request
  (answer, w.update s fun _ => session)

theorem update_update (w : World) (s : SessionId) (f g : Session → Session) :
    (w.update s f).update s g = w.update s (g ∘ f) := by
  simp only [update, mk.injEq, and_true]
  ext1
  · simp
  · simp [Array.getElem_modify]
    split <;> rfl

/-- Asking changes the session as asking the session itself does. -/
theorem ask_eq (w : World) (s : SessionId) {shape : Shape} (request : Request CellId shape) :
    w.ask s request =
      (((w.session s).ask request).1, w.update s fun _ => ((w.session s).ask request).2) := by
  simp only [ask, take, update_update]
  rfl

/-! ## Shutting down -/

def destruct (s : SessionId) (w : World) : World :=
  w.update s fun session =>
    let engine := session.engine
    { session with engine := { engine with interpreter := engine.interpreter.destruct } }

def releaseClaim (s : SessionId) (w : World) : World :=
  if (w.session s).claims then
    { w.update s fun session => { session with claims := false } with claimed := false }
  else w

def setStage (s : SessionId) (stage : Stage) (w : World) : World :=
  w.update s fun session => { session with stage }

def shutDown (s : SessionId) (w : World) : World :=
  let w := if (w.session s).stage = .initialized then (w.destruct s).releaseClaim s else w
  w.setStage s .shutDown

/-- Shuts the session down if nothing keeps it alive. -/
def shutDownUnkept (s : SessionId) (w : World) : World :=
  if (w.session s).isKept then w else w.shutDown s

/-- Takes the session from its owner. -/
def disown (s : SessionId) (w : World) : World :=
  (w.update s fun session => { session with owned := false }).shutDownUnkept s

def bindNamespace (s : SessionId) (w : World) : World :=
  w.update s fun session => { session with namespaces := session.namespaces + 1 }

def unbindNamespace (s : SessionId) (w : World) : World :=
  (w.update s fun session => { session with namespaces := session.namespaces - 1 }).shutDownUnkept s

/-! ## Handles -/

/-- Counts handles that stand for counts the host has already. -/
def adopt (s : SessionId) (n : Nat) (w : World) : World :=
  w.update s fun session => { session with liveHandles := session.liveHandles + n }

/-- Adds a count to the cell, as far as the session is running. -/
def retain (h : Handle) (w : World) : World :=
  if (w.session h.session).stage = .initialized then (w.ask h.session (.retain h.cell)).2 else w

/-- Takes a count from the cell, as far as the session is running. -/
def giveBack (h : Handle) (w : World) : World :=
  if (w.session h.session).stage = .initialized then (w.ask h.session (.release h.cell)).2 else w

def clone (w : World) (h : Handle) : World := (w.retain h).adopt h.session 1

def release (w : World) (h : Handle) : World :=
  let w := w.update h.session fun session => { session with liveHandles := session.liveHandles - 1 }
  (w.giveBack h).shutDownUnkept h.session

def cloneAll (hs : List Handle) (w : World) : World := hs.foldl clone w

def releaseAll (hs : List Handle) (w : World) : World := hs.foldl release w

end World

/-- An operation of the host. One that fails keeps what it did to the world. -/
abbrev HostM := ExceptT HostError (StateM World)

namespace HostM
variable {α : Type}

/-- Runs an operation and reports how it ended. -/
def attempt (x : HostM α) : HostM (Except HostError α) :=
  ExceptT.mk fun w => let (r, w') := x.run w; (.ok r, w')

def clone (hs : List Handle) : HostM Unit := modify (·.cloneAll hs)

def release (hs : List Handle) : HostM Unit := modify (·.releaseAll hs)

/-- Releases the handles after the operation, however it ends. -/
def holding (hs : List Handle) (x : HostM α) : HostM α := do
  let r ← attempt x
  release hs
  ofExcept r

/-- Releases the handles if the operation fails. -/
def orRelease (hs : List Handle) (x : HostM α) : HostM α := do
  match ← attempt x with
  | .ok a => return a
  | .error e =>
    release hs
    throw e

end HostM

end Embedding
