import Embedding.Proofs.Host.Sessions

/-!
# Invariants of worlds

An invariant that speaks of the world alone, and not of the handles of the host, goes on through all
operations if it goes on through a few changes of one session.
-/

namespace Embedding

variable {J : World → Prop} {w w' : World} {s t : SessionId}

/-! ## What asking leaves alone -/

theorem Session.ask_eq {shape : Shape} (request : Request CellId shape) (x : Session) :
    (x.ask request).2 = { x with engine := (x.engine.perform request).2 } := rfl

theorem World.session_ask {shape : Shape} (request : Request CellId shape)
    (hs : s.index < w.sessions.size) : (w.ask s request).2.session s =
      { w.session s with engine := ((w.session s).engine.perform request).2 } := by
  rw [World.ask_eq, World.session_update _ _ _ _ hs, if_pos rfl, Session.ask_eq]

theorem World.size_ask {shape : Shape} (request : Request CellId shape) :
    (w.ask s request).2.sessions.size = w.sessions.size := by
  rw [World.ask_eq, World.size_update]

theorem World.session_ask_of_ne {shape : Shape} (request : Request CellId shape) (ht : t ≠ s) :
    (w.ask s request).2.session t = w.session t := by
  rw [World.ask_eq, World.session_update_of_ne _ _ (Ne.symm ht)]

theorem World.ask_keeps {β : Type} (p : Session → β)
    (hp : ∀ (x : Session) engine, p { x with engine } = p x) {shape : Shape}
    (request : Request CellId shape) : p ((w.ask s request).2.session t) = p (w.session t) := by
  rw [World.ask_eq]
  by_cases hs : s.index < w.sessions.size
  · rw [session_update w s t _ hs]
    split
    · next e => subst e; exact hp _ _
    · rfl
  · rw [session_update_out hs]

theorem World.stage_ask {shape : Shape} (request : Request CellId shape) :
    ((w.ask s request).2.session t).stage = (w.session t).stage :=
  World.ask_keeps Session.stage (fun _ _ => rfl) request

theorem World.stage_update {f : Session → Session} (hf : ∀ x, (f x).stage = x.stage) :
    ((w.update s f).session t).stage = (w.session t).stage :=
  World.session_update_keeps Session.stage hf

theorem World.stage_adopt (n : Nat) : ((w.adopt s n).session t).stage = (w.session t).stage :=
  World.stage_update fun _ => rfl

/-! ## Constructing -/

/-- The request that a session is started with. -/
def World.opening (w : World) (s : SessionId) : Request CellId .nothing :=
  .construct (w.session s).config.interpreterArgs

theorem run_construct_eq (s : SessionId) (w : World) : s.construct.run w =
    match w.ask s (w.opening s) with
    | (.ok _, w') => (.ok (), w'.setStage s .initialized)
    | (.error fault, w') => (.error (.lifecycle "initialize"
        s!"interpreter construction failed: {fault.message}"), w'.releaseClaim s) := by
  unfold SessionId.construct HostM.session
  rw [bind_assoc, run_get_bind, pure_bind, run_bind, run_ask, Request.map, World.opening]
  rcases w.ask s (.construct (w.session s).config.interpreterArgs) with ⟨_ | _, w'⟩
  · rfl
  · have hadopt : w'.adopt s 0 = w' := World.adopt_zero w' s
    simp only [Answer.stakes, List.length_nil, hadopt]
    rfl

theorem construct_eq_ok (hrun : s.construct.run w = (.ok (), w')) :
    (w.ask s (w.opening s)).1 = .ok () ∧
      w' = (w.ask s (w.opening s)).2.setStage s .initialized := by
  rw [run_construct_eq] at hrun
  generalize w.ask s (w.opening s) = p at hrun ⊢
  obtain ⟨_ | _, w₁⟩ := p <;> cases hrun
  exact ⟨rfl, rfl⟩

theorem construct_eq_error {e : HostError} (hrun : s.construct.run w = (.error e, w')) :
    (w.ask s (w.opening s)).1 ≠ .ok () ∧ w' = (w.ask s (w.opening s)).2.releaseClaim s := by
  rw [run_construct_eq] at hrun
  generalize w.ask s (w.opening s) = p at hrun ⊢
  obtain ⟨_ | _, w₁⟩ := p <;> cases hrun
  exact ⟨nofun, rfl⟩

theorem size_construct {r : Except HostError Unit} (hrun : s.construct.run w = (r, w')) :
    w'.sessions.size = w.sessions.size := by
  rcases r with e | _
  · obtain ⟨-, rfl⟩ := construct_eq_error hrun
    rw [World.size_releaseClaim, World.size_ask]
  · obtain ⟨-, rfl⟩ := construct_eq_ok hrun
    rw [World.setStage, World.size_update, World.size_ask]

theorem session_construct_of_ne {r : Except HostError Unit} (hrun : s.construct.run w = (r, w'))
    (ht : t ≠ s) : w'.session t = w.session t := by
  rcases r with e | _
  · obtain ⟨-, rfl⟩ := construct_eq_error hrun
    rw [World.session_releaseClaim_of_ne ht, World.session_ask_of_ne _ ht]
  · obtain ⟨-, rfl⟩ := construct_eq_ok hrun
    rw [World.setStage, World.session_update_of_ne _ _ (Ne.symm ht), World.session_ask_of_ne _ ht]

theorem construct_keeps {β : Type} (p : Session → β)
    (hengine : ∀ (x : Session) engine, p { x with engine } = p x)
    (hstage : ∀ (x : Session) stage, p { x with stage } = p x)
    (hclaims : ∀ x : Session, p { x with claims := false } = p x) {r : Except HostError Unit}
    (hrun : s.construct.run w = (r, w')) : p (w'.session t) = p (w.session t) := by
  rcases r with e | _
  · obtain ⟨-, rfl⟩ := construct_eq_error hrun
    rw [World.releaseClaim_keeps p hclaims, World.ask_keeps p hengine]
  · obtain ⟨-, rfl⟩ := construct_eq_ok hrun
    rw [World.setStage, World.session_update_keeps p fun x => hstage x _, World.ask_keeps p hengine]

/-! ## Steady invariants -/

/-- An invariant that goes on while a host asks interpreters and takes over what they answer. -/
structure Receptive (J : World → Prop) : Prop where
  ask : ∀ {w s shape} (request : Request CellId shape), (w.session s).stage = .initialized → J w →
    J (w.ask s request).2
  adopt : ∀ {w} s (n : Nat), J w → J (w.adopt s n)

/-- An invariant that goes on while a host clones and releases handles, and asks interpreters. -/
structure Steady (J : World → Prop) : Prop where
  ask : ∀ {w s shape} (request : Request CellId shape), (w.session s).stage = .initialized → J w →
    J (w.ask s request).2
  count : ∀ {w} s (n : Nat → Nat), J w →
    J (w.update s fun session => { session with liveHandles := n session.liveHandles })
  shutDownUnkept : ∀ {w} s, J w → J (w.shutDownUnkept s)

/-- A steady invariant that goes on through starts and ends, whoever the owners are. -/
structure Lasting (J : World → Prop) : Prop extends Steady J where
  owners : ∀ {w} s (owned : Session → Bool) (namespaces : Session → Nat), J w →
    J (w.update s fun session =>
      { session with owned := owned session, namespaces := namespaces session })
  shutDown : ∀ {w} s, J w → J (w.shutDown s)
  start : ∀ {w} (s : SessionId), J w → J (s.start.run w).2

namespace Receptive

variable (hreceptive : Receptive J)
include hreceptive

theorem retain (h : Handle) (hJ : J w) : J (w.retain h) := by
  unfold World.retain
  split
  · next hstage => exact hreceptive.ask _ hstage hJ
  · exact hJ

theorem clone (h : Handle) (hJ : J w) : J (w.clone h) :=
  hreceptive.adopt h.session 1 (hreceptive.retain h hJ)

theorem ends_ask {shape : Shape} (request : Request Handle shape)
    (hstage : (w.session s).stage = .initialized) (hJ : J w) :
    Ends (HostM.ask s request) w fun _ w' => J w' ∧ (w'.session s).stage = .initialized := by
  unfold Ends
  have hJ := hreceptive.ask (request.map Handle.cell) hstage hJ
  have hstage' : ((w.ask s (request.map Handle.cell)).2.session s).stage = .initialized :=
    (World.stage_ask _).trans hstage
  rw [run_ask]
  generalize w.ask s (request.map Handle.cell) = p at hJ hstage'
  obtain ⟨_ | answer, w'⟩ := p
  · exact ⟨hJ, hstage'⟩
  · exact ⟨hreceptive.adopt s _ hJ, (World.stage_adopt _).trans hstage'⟩

theorem exchange {shape : Shape} (request : Request Handle shape)
    (hstage : (w.session s).stage = .initialized) (hJ : J w) :
    Ends (exchange s request) w fun _ w' => J w' := by
  refine (hreceptive.ends_ask request hstage hJ).bind (fun outcome w₁ h₁ => ?_) fun _ _ h => h.1
  refine (hreceptive.ends_ask .takeError h₁.2 h₁.1).bind (fun pending w₂ h₂ => ?_) fun _ _ h => h.1
  exact hreceptive.adopt s _ h₂.1

end Receptive

namespace Steady

variable (hsteady : Steady J)
include hsteady

theorem receptive : Receptive J := ⟨hsteady.ask, fun s n hJ => hsteady.count s (· + n) hJ⟩

theorem release (h : Handle) (hJ : J w) : J (w.release h) := by
  unfold World.release World.giveBack
  apply hsteady.shutDownUnkept
  have hJ := hsteady.count h.session (· - 1) hJ
  split
  · next hstage => exact hsteady.ask _ hstage hJ
  · exact hJ

theorem trade : Trade fun w _ => J w where
  perm hJ _ := hJ
  clone hJ _ := hsteady.receptive.clone _ hJ
  release hJ := hsteady.release _ hJ
  exchange request _ hstage _ _ _ hJ hrun :=
    (hsteady.receptive.exchange request hstage hJ).of_run hrun

theorem retains : Retains fun w _ => J w := fun hJ _ => hsteady.receptive.retain _ hJ

end Steady

theorem Lasting.books (hlasting : Lasting J) : Books fun w _ => J w where
  toDealing := hlasting.trade
  start {_ _ s} _ hJ := hlasting.start s hJ
  shutDown {_ _ s} _ hJ := hlasting.shutDown s hJ
  disown {_ _ s} _ hJ := hlasting.shutDownUnkept s (hlasting.owners s (fun _ => false) Session.namespaces hJ)
  bindNamespace {_ _ s} _ hJ := hlasting.owners s Session.owned (·.namespaces + 1) hJ
  unbindNamespace {_ _ s} _ hJ :=
    hlasting.shutDownUnkept s (hlasting.owners s Session.owned (·.namespaces - 1) hJ)

/-- A start, seen from what holds of the world alone: `J` while the interpreter runs. -/
theorem Steady.start {K : World → Prop} (hrunning : Steady J) (hdone : ∀ {w}, J w → K w)
    (habandon : ∀ {w}, J w → K (s.abandon.run w).2)
    (hlaunch : (w.session s).stage = .uninitialized → Ends (do s.takeClaim; s.construct) w
      fun r w' => match r with
        | .ok _ => J w'
        | .error _ => K w')
    (hK : K w) : K (s.start.run w).2 :=
  @Dealing.ends_start (Within Everywhere) (fun w _ => K w) w s (fun w _ => J w) hrunning.trade _ _ hdone
    habandon
    [] hlaunch hK

theorem Steady.start_of_ne (hsteady : Steady J) (ht : s ≠ t)
    (hsame : ∀ {w w' : World}, w'.session s = w.session s → J w → J w') (hJ : J w) :
    J (t.start.run w).2 := by
  refine hsteady.start (fun hJ => hJ) (hsame (World.session_ended_of_ne ht)) (fun hstage => ?_) hJ
  have hclaim : J { w.update t fun session => { session with claims := true } with
      claimed := true } := hsame (World.session_update_of_ne _ _ (Ne.symm ht)) hJ
  have hends := @ends_takeClaim (fun w _ => J w) w t [] hJ hclaim
  refine hends.bind (fun _ w₁ h₁ => ?_) fun _ _ h => h.1
  unfold Ends
  cases hrun : t.construct.run w₁ with
  | mk r w₂ => cases r <;> exact hsame (session_construct_of_ne hrun ht) h₁.1

theorem lasting_true : Lasting fun _ => True where
  ask _ _ _ := trivial
  count _ _ _ := trivial
  shutDownUnkept _ _ := trivial
  owners _ _ _ _ := trivial
  shutDown _ _ := trivial
  start _ _ := trivial

theorem Accounts.preserves {α : Type} {b taken : List Handle} {x : HostM α}
    {given : α → List Handle} (hx : Accounts (fun w _ => J w) b x taken given) : Preserves J x :=
  fun w hJ => hx w b (List.Subset.refl b) hJ

/-! ## Sessions that were shut down -/

/-- The session was shut down and left its engine so. -/
structure World.EndedOn (s : SessionId) (engine : Engine) (w : World) : Prop where
  stage : (w.session s).stage = .shutDown
  engine : (w.session s).engine = engine

theorem World.EndedOn.of_eq {engine : Engine} (hw : w.EndedOn s engine)
    (hstage : (w'.session s).stage = (w.session s).stage)
    (hengine : (w'.session s).engine = (w.session s).engine) : w'.EndedOn s engine :=
  ⟨hstage.trans hw.stage, hengine.trans hw.engine⟩

theorem World.EndedOn.of_session {engine : Engine} (hw : w.EndedOn s engine)
    (hsession : w'.session s = w.session s) : w'.EndedOn s engine :=
  hw.of_eq (by rw [hsession]) (by rw [hsession])

theorem World.EndedOn.shutDown {engine : Engine} (hw : w.EndedOn s engine) (t : SessionId) :
    (w.shutDown t).EndedOn s engine := by
  by_cases ht : s = t
  · subst ht
    have hidle : ¬ (w.session s).stage = .initialized := by rw [hw.stage]; nofun
    rw [World.shutDown, if_neg hidle]
    have hlt : s.index < w.sessions.size := World.lt_of_stage_ne (by rw [hw.stage]; nofun)
    have hsession : (w.setStage s .shutDown).session s = { w.session s with stage := .shutDown } :=
      (World.session_update _ _ _ _ hlt).trans (if_pos rfl)
    exact ⟨by rw [hsession], by rw [hsession]; exact hw.engine⟩
  · exact hw.of_session (World.session_shutDown_of_ne ht)

theorem steady_endedOn (s : SessionId) (engine : Engine) : Steady (World.EndedOn s engine) where
  ask {w t _} request hstage hw := by
    -- only running interpreters are asked, so the session that is asked is another one
    have ht : s ≠ t := by
      rintro rfl
      exact nomatch hw.stage.symm.trans hstage
    exact hw.of_session (World.session_ask_of_ne request ht)
  count _ _ hw := hw.of_eq (World.stage_update fun _ => rfl)
    (World.session_update_keeps Session.engine fun _ => rfl)
  shutDownUnkept t hw := by
    unfold World.shutDownUnkept
    split
    · exact hw
    · exact hw.shutDown t

theorem run_start_started (hstage : (w.session s).stage ≠ .uninitialized) :
    (s.start.run w).2 = w := by
  unfold SessionId.start HostM.session
  rw [bind_assoc, run_get_bind, pure_bind]
  cases h : (w.session s).stage with
  | uninitialized => exact absurd h hstage
  | _ => rfl

/-- Nothing that a host does concerns the interpreter of a session that was shut down. -/
theorem lasting_endedOn (s : SessionId) (engine : Engine) : Lasting (World.EndedOn s engine) where
  toSteady := steady_endedOn s engine
  owners _ _ _ hw := hw.of_eq (World.stage_update fun _ => rfl)
    (World.session_update_keeps Session.engine fun _ => rfl)
  shutDown t hw := hw.shutDown t
  start t hw := by
    by_cases ht : s = t
    · subst ht
      rwa [run_start_started (by rw [hw.stage]; nofun)]
    · exact (steady_endedOn s engine).start_of_ne ht (fun hsession hw => hw.of_session hsession) hw

end Embedding
