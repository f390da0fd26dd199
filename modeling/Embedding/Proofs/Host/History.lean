import Embedding.Proofs.Host.Balance
import Embedding.Proofs.Host.Steady

/-!
# Histories

A history is a way that a host can go, with every call that it makes to an interpreter on the way.
Interpreters are constructed and destructed in turn, only those that run are asked, and no cell is
named that was not given out since the interpreter that is asked was constructed.
-/

namespace Embedding

/-- A call to an interpreter. -/
inductive Event
  | constructed (s : SessionId)
  | destructed (s : SessionId)
  /-- A request: the cells that it names, and the cells that the host gets stakes in. -/
  | asked (s : SessionId) (named given : List CellId)
  deriving DecidableEq

namespace World

/-- The call that changes the count of a handle's cell. -/
def counting (w : World) (h : Handle) : List Event :=
  if (w.session h.session).stage = .initialized then [.asked h.session [h.cell] []] else []

/-- The call that ends a session. -/
def ending (w : World) (s : SessionId) : List Event :=
  if (w.session s).stage = .initialized then [.destructed s] else []

/-- The end of a handle, before it matters whether it was the last. -/
def drop (w : World) (h : Handle) : World :=
  (w.update h.session fun session =>
    { session with liveHandles := session.liveHandles - 1 }).giveBack h

end World

/-- The worlds that a host can come to, with the handles that it owns there and the calls that it
has made, the latest first. Sessions are created on interpreters that do not run yet. -/
inductive History : World → List Handle → List Event → Prop
  | empty : History {} [] []
  | create {w hs log} (engine : Engine) (config : Config) :
    engine.interpreter.isConstructed = false → History w hs log →
    History (w.create engine config) hs log
  | perm {w hs hs' log} : History w hs log → hs.Perm hs' → History w hs' log
  | clone {w hs log h} : h ∈ hs → History w hs log →
    History (w.clone h) (h :: hs) (w.counting h ++ log)
  | retain {w hs log h} : h ∈ hs → History w hs log →
    History (w.retain h) hs (w.counting h ++ log)
  | drop {w hs log h} : History w (h :: hs) log → History (w.drop h) hs (w.counting h ++ log)
  /-- The text of an error value is asked for. -/
  | spell {w hs log h} : h ∈ hs → (w.session h.session).stage = .initialized →
    History w hs log →
    History (w.ask h.session (.toBytes h.cell)).2 hs (.asked h.session [h.cell] [] :: log)
  | exchange {w w' hs log s shape outcome pending} (request : Request Handle shape) :
    (w.session s).stage = .initialized → (∀ h ∈ request.cells, h.session = s) →
    request.cells ⊆ hs → History w hs log →
    (exchange s request).run w = (.ok (outcome, pending), w') →
    History w' (exchanged s outcome pending ++ hs)
      (.asked s [] ((pendingHandles pending).map Handle.cell) ::
        .asked s (request.cells.map Handle.cell)
          ((diedHandles s outcome ++ HostM.stakesOf outcome).map Handle.cell) :: log)
  | claim {w hs log} (s : SessionId) : History w hs log → History
    { w.update s fun session => { session with claims := true } with claimed := true } hs log
  | construct {w w' hs log} (s : SessionId) : s.index < w.sessions.size →
    (w.session s).stage = .uninitialized → History w hs log →
    s.construct.run w = (.ok (), w') → History w' hs (.constructed s :: log)
  | refuse {w w' hs log e} (s : SessionId) : s.index < w.sessions.size →
    (w.session s).stage = .uninitialized → History w hs log →
    s.construct.run w = (.error e, w') → History w' hs log
  | abandon {w w' hs log r} (s : SessionId) : (w.session s).stage = .initialized →
    History w hs log → s.abandon.run w = (r, w') → History w' hs (.destructed s :: log)
  | shutDown {w hs log} (s : SessionId) : History w hs log →
    History (w.shutDown s) hs (w.ending s ++ log)
  /-- Somebody becomes an owner of the session, or ceases to be one. -/
  | reown {w hs log} (s : SessionId) (owned : Session → Bool) (namespaces : Session → Nat) :
    History w hs log → History (w.update s fun session =>
      { session with owned := owned session, namespaces := namespaces session }) hs log

/-! ## Calls in turn -/

/-- The interpreter of the session is constructed and destructed in turn, is asked only in between,
and runs in the end or not. -/
def InTurn (s : SessionId) : Bool → List Event → Prop
  | runs, [] => runs = false
  | runs, .constructed t :: log =>
    if t = s then runs = true ∧ InTurn s false log else InTurn s runs log
  | runs, .destructed t :: log =>
    if t = s then runs = false ∧ InTurn s true log else InTurn s runs log
  | runs, .asked t _ _ :: log => (t = s → runs = true) ∧ InTurn s runs log

/-- The cells that the interpreter of the session has given out since it was last constructed. -/
def givenOut (s : SessionId) : List Event → List CellId
  | [] => []
  | .constructed t :: log => if t = s then [] else givenOut s log
  | .destructed _ :: log => givenOut s log
  | .asked t _ given :: log => if t = s then given ++ givenOut s log else givenOut s log

/-- A request names only cells that its interpreter has given out since it was constructed. -/
def NamesGiven : List Event → Prop
  | [] => True
  | .asked s named _ :: log => named ⊆ givenOut s log ∧ NamesGiven log
  | .constructed _ :: log | .destructed _ :: log => NamesGiven log

/-- What the calls up to now were like, where sessions have come to the stages and the host owns the
handles. -/
structure Recorded (stage : SessionId → Stage) (hs : List Handle) (log : List Event) : Prop where
  inTurn : ∀ s, InTurn s (stage s = .initialized) log
  given : ∀ h ∈ hs, h.cell ∈ givenOut h.session log
  named : NamesGiven log

section
variable {stage stage' : SessionId → Stage} {hs hs' taken : List Handle} {log : List Event}
  {s : SessionId} {named : List CellId}

theorem Recorded.subset (hr : Recorded stage hs log) (hsub : hs' ⊆ hs) : Recorded stage hs' log :=
  ⟨hr.inTurn, fun h hh => hr.given h (hsub hh), hr.named⟩

theorem Recorded.restage (hr : Recorded stage hs log)
    (hstage : ∀ s, stage' s = .initialized ↔ stage s = .initialized) : Recorded stage' hs log :=
  ⟨fun s => by simpa [hstage] using hr.inTurn s, hr.given, hr.named⟩

theorem Recorded.ask (hr : Recorded stage hs log) (hstage : stage s = .initialized)
    (hnamed : ∀ c ∈ named, ⟨s, c⟩ ∈ hs) (htaken : ∀ h ∈ taken, h.session = s) :
    Recorded stage (taken ++ hs) (.asked s named (taken.map Handle.cell) :: log) := by
  refine ⟨fun t => ⟨fun ht => by simpa [← ht], hr.inTurn t⟩, fun h hh => ?_, ?_, hr.named⟩
  · rw [givenOut]
    rcases List.mem_append.1 hh with hnew | hold
    · rw [if_pos (htaken h hnew).symm]
      exact List.mem_append_left _ (List.mem_map_of_mem hnew)
    · split
      · exact List.mem_append_right _ (hr.given h hold)
      · exact hr.given h hold
  · exact fun c hc => hr.given ⟨s, c⟩ (hnamed c hc)

theorem Recorded.construct (hr : Recorded stage hs log) (hbefore : stage s ≠ .initialized)
    (hafter : stage' s = .initialized) (hother : ∀ t, t ≠ s → stage' t = stage t)
    (hnone : ∀ h ∈ hs, h.session ≠ s) : Recorded stage' hs (.constructed s :: log) := by
  refine ⟨fun t => ?_, fun h hh => ?_, hr.named⟩
  · rw [InTurn]
    by_cases ht : s = t
    · subst ht
      rw [if_pos rfl]
      exact ⟨by simp [hafter], by simpa [hbefore] using hr.inTurn s⟩
    · rw [if_neg ht, hother t (Ne.symm ht)]
      exact hr.inTurn t
  · rw [givenOut, if_neg (Ne.symm (hnone h hh))]
    exact hr.given h hh

theorem Recorded.destruct (hr : Recorded stage hs log) (hbefore : stage s = .initialized)
    (hafter : stage' s ≠ .initialized) (hother : ∀ t, t ≠ s → stage' t = stage t) :
    Recorded stage' hs (.destructed s :: log) := by
  refine ⟨fun t => ?_, hr.given, hr.named⟩
  rw [InTurn]
  by_cases ht : s = t
  · subst ht
    rw [if_pos rfl]
    exact ⟨by simp [hafter], by simpa [hbefore] using hr.inTurn s⟩
  · rw [if_neg ht, hother t (Ne.symm ht)]
    exact hr.inTurn t

end

end Embedding
