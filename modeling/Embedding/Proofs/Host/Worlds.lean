import Embedding.Host.World
import Embedding.Proofs.Ends

/-!
# Sessions of a world

Asking an interpreter that runs changes its heap and nothing else in the world, and a query changes
nothing at all.
-/

namespace Embedding.World

variable {w : World} {s t : SessionId} {f g : Session → Session} {h h' : Heap} {m n : Nat}

theorem session_update_out (hs : ¬ s.index < w.sessions.size) : w.update s f = w := by
  obtain ⟨sessions, claimed⟩ := w
  have : sessions.modify s.index f = sessions := by
    apply Array.ext
    · simp
    · intro i h₁ h₂
      have hi : s.index ≠ i := fun e => hs (e ▸ h₂)
      simp [Array.getElem_modify, hi]
  simp [update, this]

theorem session_update_keeps {β : Type} (p : Session → β) (hp : ∀ x, p (f x) = p x) :
    p ((w.update s f).session t) = p (w.session t) := by
  by_cases hs : s.index < w.sessions.size
  · rw [session_update w s t f hs]
    split
    · next e => rw [hp, e]
    · rfl
  · rw [session_update_out hs]

theorem size_update (w : World) (s : SessionId) (f : Session → Session) :
    (w.update s f).sessions.size = w.sessions.size := by simp [update]

theorem session_out (hs : ¬ s.index < w.sessions.size) : w.session s = default := by
  simp [session, Array.getElem?_eq_none (Nat.le_of_not_lt hs)]

theorem lt_of_stage_ne (hstage : (w.session s).stage ≠ .uninitialized) :
    s.index < w.sessions.size := by
  refine Decidable.byContradiction fun hs => hstage ?_
  rw [session_out hs]
  rfl

theorem update_congr (hfg : f (w.session s) = g (w.session s)) : w.update s f = w.update s g := by
  by_cases hs : s.index < w.sessions.size
  · have hsession : w.session s = w.sessions[s.index] := by simp [session, hs]
    rw [hsession] at hfg
    simp only [update, mk.injEq, and_true]
    apply Array.ext
    · simp
    · intro i h₁ h₂
      simp only [Array.getElem_modify]
      split
      · next e => subst e; exact hfg
      · rfl
  · rw [session_update_out hs, session_update_out hs]

theorem update_id (w : World) (s : SessionId) : w.update s (fun session => session) = w := by
  obtain ⟨sessions, claimed⟩ := w
  simp only [update, mk.injEq, and_true]
  apply Array.ext
  · simp
  · intro i h₁ h₂
    simp [Array.getElem_modify]

theorem adopt_zero (w : World) (s : SessionId) : w.adopt s 0 = w :=
  (update_congr (g := fun session => session) rfl).trans (update_id w s)

/-- A world in which no interpreter was started yet. -/
structure Fresh (w : World) : Prop where
  fixed : ∀ s, (w.session s).engine.fixed = []
  stage : ∀ s, (w.session s).stage = .uninitialized
  heap : ∀ s, (w.session s).engine.interpreter.heap = none
  liveHandles : ∀ s, (w.session s).liveHandles = 0

/-! ## The end of a session -/

theorem session_releaseClaim_of_ne (ht : t ≠ s) :
    (w.releaseClaim s).session t = w.session t := by
  unfold releaseClaim
  split
  · exact session_update_of_ne w _ (Ne.symm ht)
  · rfl

theorem size_releaseClaim (w : World) (s : SessionId) :
    (w.releaseClaim s).sessions.size = w.sessions.size := by
  unfold releaseClaim
  split
  · exact size_update ..
  · rfl

theorem releaseClaim_keeps {β : Type} (p : Session → β)
    (hp : ∀ x : Session, p { x with claims := false } = p x) :
    p ((w.releaseClaim s).session t) = p (w.session t) := by
  unfold releaseClaim
  split
  · exact session_update_keeps p hp
  · rfl

theorem session_ended_of_ne {stage : Stage} (ht : t ≠ s) :
    (((w.destruct s).releaseClaim s).setStage s stage).session t = w.session t := by
  rw [setStage, session_update_of_ne _ _ (Ne.symm ht), session_releaseClaim_of_ne ht, destruct,
    session_update_of_ne _ _ (Ne.symm ht)]

theorem size_ended (w : World) (s : SessionId) (stage : Stage) :
    (((w.destruct s).releaseClaim s).setStage s stage).sessions.size = w.sessions.size := by
  rw [setStage, size_update, size_releaseClaim, destruct, size_update]

theorem stage_ended {stage : Stage} (hs : s.index < w.sessions.size) :
    ((((w.destruct s).releaseClaim s).setStage s stage).session s).stage = stage := by
  rw [setStage, session_update _ _ _ _ (by rwa [size_releaseClaim, destruct, size_update]), if_pos rfl]

/-- What ending does not change: all but the stage, the claim and the interpreter. -/
theorem ended_keeps {β : Type} (p : Session → β)
    (hdestruct : ∀ x : Session, p { x with engine :=
      { x.engine with interpreter := x.engine.interpreter.destruct } } = p x)
    (hclaims : ∀ x : Session, p { x with claims := false } = p x)
    (hstage : ∀ (x : Session) stage, p { x with stage } = p x) (stage : Stage) :
    p ((((w.destruct s).releaseClaim s).setStage s stage).session t) = p (w.session t) := by
  rw [setStage, session_update_keeps p fun x => hstage x _, releaseClaim_keeps p hclaims, destruct]
  exact session_update_keeps p hdestruct

theorem session_shutDown_of_ne (ht : t ≠ s) : (w.shutDown s).session t = w.session t := by
  unfold shutDown setStage
  rw [session_update_of_ne _ _ (Ne.symm ht)]
  split
  · rw [session_releaseClaim_of_ne ht, destruct, session_update_of_ne _ _ (Ne.symm ht)]
  · rfl

theorem size_shutDown (w : World) (s : SessionId) :
    (w.shutDown s).sessions.size = w.sessions.size := by
  unfold shutDown setStage
  rw [size_update]
  split
  · rw [size_releaseClaim, destruct, size_update]
  · rfl

theorem stage_shutDown (hs : s.index < w.sessions.size) :
    ((w.shutDown s).session s).stage = .shutDown := by
  have hsize := size_shutDown w s
  unfold shutDown setStage at hsize ⊢
  rw [size_update] at hsize
  rw [session_update _ _ _ _ (hsize ▸ hs), if_pos rfl]

theorem shutDown_keeps {β : Type} (p : Session → β)
    (hdestruct : ∀ x : Session, p { x with engine :=
      { x.engine with interpreter := x.engine.interpreter.destruct } } = p x)
    (hclaims : ∀ x : Session, p { x with claims := false } = p x)
    (hstage : ∀ (x : Session) stage, p { x with stage } = p x) :
    p ((w.shutDown s).session t) = p (w.session t) := by
  unfold shutDown
  split
  · exact ended_keeps p hdestruct hclaims hstage .shutDown
  · exact session_update_keeps p fun x => hstage x _

/-! ## Running sessions -/

theorem ask_session {session : Session} {shape : Shape} {request : Request CellId shape}
    {r : Except Fault (Answer CellId shape)} {i : Interpreter} (hfixed : session.engine.fixed = [])
    (hperform : session.engine.interpreter.perform request = (r, i)) :
    session.ask request = (r, { session with engine := ⟨i, []⟩ }) := by
  obtain ⟨⟨interpreter, fixed⟩, _⟩ := session
  obtain rfl : fixed = [] := hfixed
  have hengine : (⟨interpreter, []⟩ : Engine).perform request = (r, ⟨i, []⟩) :=
    congrArg (fun p : _ × Interpreter => (p.1, (⟨p.2, []⟩ : Engine))) hperform
  rw [Session.ask]
  simp only [hengine]

/-- The world after an interpreter's heap became `h` and the host got `n` handles. -/
def put (s : SessionId) (h : Heap) (n : Nat) (w : World) : World :=
  w.update s fun session =>
    let engine := session.engine
    { session with
      engine := { engine with interpreter := { engine.interpreter with heap := some h } }
      liveHandles := session.liveHandles + n }

/-- A session that runs on a heap, and whose interpreter answers everything itself. -/
structure RunsOn (w : World) (s : SessionId) (setup : Setup) (h : Heap) : Prop where
  stage : (w.session s).stage = .initialized
  engine : (w.session s).engine = ⟨⟨setup, some h⟩, []⟩

section
variable {setup : Setup} {shape : Shape}

theorem RunsOn.lt (hr : w.RunsOn s setup h) : s.index < w.sessions.size := by
  refine Decidable.byContradiction fun hs => ?_
  have := hr.stage
  rw [session_out hs] at this
  cases this

theorem put_put (s : SessionId) (h h' : Heap) (m n : Nat) (w : World) :
    (w.put s h m).put s h' n = w.put s h' (m + n) := by
  rw [put, put, update_update]
  refine update_congr ?_
  simp [Nat.add_assoc]

theorem adopt_put (s : SessionId) (h : Heap) (m n : Nat) (w : World) :
    (w.put s h m).adopt s n = w.put s h (m + n) := by
  rw [put, adopt, update_update]
  refine update_congr ?_
  simp [Nat.add_assoc]

theorem RunsOn.put (hr : w.RunsOn s setup h) (h' : Heap) (n : Nat) :
    (w.put s h' n).RunsOn s setup h' where
  stage := by rw [World.put, session_update _ _ _ _ hr.lt, if_pos rfl]; exact hr.stage
  engine := by
    rw [World.put, session_update _ _ _ _ hr.lt, if_pos rfl]
    simp [hr.engine]

theorem RunsOn.put_self (hr : w.RunsOn s setup h) : w.put s h 0 = w := by
  refine (update_congr (g := fun session => session) ?_).trans (update_id w s)
  have hengine := hr.engine
  generalize w.session s = session at hengine
  obtain ⟨engine, _⟩ := session
  obtain rfl : engine = _ := hengine
  rfl

theorem RunsOn.ask (hr : w.RunsOn s setup h) (request : Request CellId shape) :
    w.ask s request =
      (((Heap.answer setup request).run h).1, w.put s ((Heap.answer setup request).run h).2 0) := by
  have hperform : (w.session s).engine.interpreter.perform request =
      (((Heap.answer setup request).run h).1,
        ⟨setup, some ((Heap.answer setup request).run h).2⟩) := by
    rw [hr.engine]
    rfl
  rw [World.ask_eq, ask_session (by rw [hr.engine]) hperform]
  congr 1
  refine update_congr ?_
  simp [hr.engine]

end

theorem ask_toBytes (w : World) (s : SessionId) (c : CellId) : (w.ask s (.toBytes c)).2 = w := by
  have hinterpreter (i : Interpreter) : (i.perform (.toBytes c)).2 = i := by
    rcases i with ⟨setup, _ | h⟩ <;> rfl
  have hengine (e : Engine) : (e.perform (.toBytes c)).2 = e := by
    rw [Engine.perform]
    split
    · rfl
    · obtain ⟨i, fixed⟩ := e
      exact congrArg (Engine.mk · fixed) (hinterpreter i)
  have hsession (session : Session) : (session.ask (.toBytes c)).2 = session := by
    obtain ⟨engine, _⟩ := session
    simp only [Session.ask, hengine]
  rw [World.ask_eq]
  dsimp only
  rw [hsession]
  exact (update_congr (g := fun session => session) rfl).trans (update_id w s)

end Embedding.World
