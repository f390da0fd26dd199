import Embedding.Proofs.Console.Steps
import Embedding.Proofs.Host.Failures

/-!
# One interpreter without multiplicity

An interpreter that says that it must be the only one of its kind runs with the claim of the process.
The claim is held exactly by the session whose interpreter runs so, however starts succeed and fail
and whichever owner goes last.
-/

namespace Embedding

open Console

variable {w w' : World} {s t : SessionId} {holder : SessionId → Prop}

/-! ## The claim and its holder -/

/-- The claim is held if and only if there is a holder, who knows of it. -/
structure World.Guards (w : World) (holder : SessionId → Prop) : Prop where
  claims : ∀ s, (w.session s).claims = true ↔ holder s
  claimed : w.claimed = true ↔ ∃ s, holder s
  unique : ∀ s t, holder s → holder t → s = t

theorem World.Guards.congr {holder' : SessionId → Prop} (hw : w.Guards holder)
    (h : ∀ s, holder' s ↔ holder s) : w.Guards holder' :=
  (funext fun s => propext (h s) : holder' = holder) ▸ hw

theorem World.Guards.of_eq (hw : w.Guards holder) (hclaimed : w'.claimed = w.claimed)
    (hclaims : ∀ t, (w'.session t).claims = (w.session t).claims) : w'.Guards holder :=
  ⟨fun s => by rw [hclaims]; exact hw.claims s, by rw [hclaimed]; exact hw.claimed, hw.unique⟩

theorem lt_of_claims (hclaims : (w.session s).claims = true) : s.index < w.sessions.size := by
  refine Decidable.byContradiction fun hs => ?_
  rw [World.session_out hs] at hclaims
  cases hclaims

theorem World.Guards.releaseClaim (hw : w.Guards holder) (s : SessionId) :
    (w.releaseClaim s).Guards fun t => holder t ∧ t ≠ s := by
  unfold World.releaseClaim
  split
  · next hclaims =>
    have hnone (t : SessionId) : ¬ (holder t ∧ t ≠ s) := fun h =>
      h.2 (hw.unique t s h.1 ((hw.claims s).1 hclaims))
    refine ⟨fun t => iff_of_false ?_ (hnone t), iff_of_false nofun fun ⟨t, ht⟩ => hnone t ht,
      fun t _ ht => absurd ht (hnone t)⟩
    change ¬ ((w.update s fun session => { session with claims := false }).session t).claims = true
    rw [World.session_update _ _ _ _ (lt_of_claims hclaims)]
    split
    · nofun
    · next ht => exact fun h => ht (hw.unique s t ((hw.claims s).1 hclaims) ((hw.claims t).1 h))
  · next hclaims =>
    exact hw.congr fun t => and_iff_left_of_imp fun ht e => hclaims ((hw.claims s).2 (e ▸ ht))

/-- The session runs on an interpreter that must be the only one. -/
def World.RunsAlone (w : World) (s : SessionId) : Prop :=
  (w.session s).stage = .initialized ∧ (w.session s).capabilities.multiplicity = false

/-- The claim is held by the session that runs alone. -/
def World.Guarded (w : World) : Prop := w.Guards w.RunsAlone

theorem World.runsAlone_iff (hstage : (w'.session t).stage = (w.session t).stage)
    (hcapabilities : (w'.session t).capabilities = (w.session t).capabilities) :
    w'.RunsAlone t ↔ w.RunsAlone t := by
  rw [World.RunsAlone, hstage, hcapabilities, World.RunsAlone]

theorem World.Guarded.of_eq (hw : w.Guarded) (hclaimed : w'.claimed = w.claimed)
    (hclaims : ∀ t, (w'.session t).claims = (w.session t).claims)
    (hstages : ∀ t, (w'.session t).stage = (w.session t).stage)
    (hcapabilities : ∀ t, (w'.session t).capabilities = (w.session t).capabilities) : w'.Guarded :=
  (World.Guards.of_eq hw hclaimed hclaims).congr fun t =>
    World.runsAlone_iff (hstages t) (hcapabilities t)

theorem World.Guarded.update (hw : w.Guarded) {f : Session → Session}
    (hf : ∀ x, (f x).claims = x.claims ∧ (f x).stage = x.stage ∧
      (f x).capabilities = x.capabilities) : (w.update s f).Guarded :=
  hw.of_eq rfl (fun _ => World.session_update_keeps Session.claims fun x => (hf x).1)
    (fun _ => World.session_update_keeps Session.stage fun x => (hf x).2.1)
    fun _ => World.session_update_keeps Session.capabilities fun x => (hf x).2.2

/-! ## Requests -/

theorem Engine.setup_perform {shape : Shape} (request : Request CellId shape) (e : Engine) :
    (e.perform request).2.interpreter.setup = e.interpreter.setup := by
  unfold Engine.perform
  split
  · rfl
  · obtain ⟨⟨setup, _ | heap⟩, fixed⟩ := e
    · cases request with
      | construct args =>
        simp only [Interpreter.perform]
        split <;> rfl
      | _ => rfl
    · rfl

theorem World.capabilities_ask {shape : Shape} (request : Request CellId shape) :
    ((w.ask s request).2.session t).capabilities = (w.session t).capabilities := by
  by_cases ht : t = s
  · subst ht
    by_cases hs : t.index < w.sessions.size
    · rw [World.session_ask request hs]
      exact congrArg Setup.capabilities (Engine.setup_perform request _)
    · rw [World.ask_eq, World.session_update_out hs]
  · rw [World.session_ask_of_ne request ht]

theorem World.capabilities_update {f : Session → Session}
    (hf : ∀ x, (f x).capabilities = x.capabilities) :
    ((w.update s f).session t).capabilities = (w.session t).capabilities :=
  World.session_update_keeps Session.capabilities hf

theorem World.Guarded.ask (hw : w.Guarded) {shape : Shape} (request : Request CellId shape) :
    (w.ask s request).2.Guarded :=
  hw.of_eq (by rw [World.ask_eq]; rfl) (fun _ => World.ask_keeps Session.claims (fun _ _ => rfl) _)
    (fun _ => World.stage_ask request) fun _ => World.capabilities_ask request

/-! ## Ends -/

theorem World.not_runsAlone_setStage {stage : Stage} (hstage : stage ≠ .initialized) :
    ¬ (w.setStage s stage).RunsAlone s := by
  intro ⟨hruns, _⟩
  by_cases hs : s.index < w.sessions.size
  · rw [World.setStage, World.session_update _ _ _ _ hs, if_pos rfl] at hruns
    exact hstage hruns
  · rw [World.session_out (by rwa [World.setStage, World.size_update])] at hruns
    cases hruns

theorem World.Guards.setStage (hw : w.Guards fun t => w.RunsAlone t ∧ t ≠ s) {stage : Stage}
    (hstage : stage ≠ .initialized) : (w.setStage s stage).Guarded := by
  have hsame : (w.setStage s stage).Guards _ :=
    hw.of_eq rfl fun t => World.session_update_keeps Session.claims fun _ => rfl
  refine hsame.congr fun t => ?_
  by_cases ht : t = s
  · subst ht
    exact iff_of_false (World.not_runsAlone_setStage hstage) fun h => h.2 rfl
  · rw [World.RunsAlone, World.setStage, World.session_update_of_ne _ _ (Ne.symm ht)]
    exact ⟨fun h => ⟨h, ht⟩, fun h => h.1⟩

theorem World.Guarded.destruct (hw : w.Guarded) (s : SessionId) : (w.destruct s).Guarded :=
  hw.update fun _ => ⟨rfl, rfl, rfl⟩

/-- Where an interpreter ended, the claim is given back if it was held for it. -/
theorem World.Guarded.ended (hw : w.Guarded) (s : SessionId) {stage : Stage}
    (hstage : stage ≠ .initialized) :
    (((w.destruct s).releaseClaim s).setStage s stage).Guarded := by
  refine World.Guards.setStage (((hw.destruct s).releaseClaim s).congr fun t => ?_) hstage
  rw [World.runsAlone_iff (World.releaseClaim_keeps Session.stage fun _ => rfl)
    (World.releaseClaim_keeps Session.capabilities fun _ => rfl)]

theorem World.Guarded.shutDown (hw : w.Guarded) (s : SessionId) : (w.shutDown s).Guarded := by
  unfold World.shutDown
  split
  · exact hw.ended s nofun
  · next hstage =>
    refine World.Guards.setStage (World.Guards.congr hw fun t => ?_) nofun
    exact and_iff_left_of_imp fun h e => hstage (e ▸ h.1)

theorem World.Guarded.shutDownUnkept (hw : w.Guarded) (s : SessionId) :
    (w.shutDownUnkept s).Guarded := by
  unfold World.shutDownUnkept
  split
  · exact hw
  · exact hw.shutDown s

theorem steady_guarded : Steady World.Guarded where
  ask request _ hw := hw.ask request
  count _ _ hw := hw.update fun _ => ⟨rfl, rfl, rfl⟩
  shutDownUnkept s hw := hw.shutDownUnkept s

/-! ## Starts -/

def alreadyRunning : HostError := .lifecycle "initialize"
  "another interpreter is already running and this build has no multiplicity"

theorem run_takeClaim (s : SessionId) (w : World) : s.takeClaim.run w =
    if (w.session s).capabilities.multiplicity then (.ok (), w)
    else if w.claimed then (.error alreadyRunning, w)
    else (.ok (), { w.update s fun session => { session with claims := true } with
      claimed := true }) := by
  unfold SessionId.takeClaim HostM.session
  rw [bind_assoc, run_get_bind, pure_bind]
  split
  · rfl
  · rw [run_get_bind]
    split <;> rfl

/-- The session is about to run, so that it has the claim already if it needs it. -/
structure World.Launching (w : World) (s : SessionId) : Prop where
  stage : (w.session s).stage = .uninitialized
  guards : w.Guards fun t =>
    if t = s then (w.session s).capabilities.multiplicity = false else w.RunsAlone t

theorem World.not_runsAlone (hstage : (w.session s).stage = .uninitialized) : ¬ w.RunsAlone s :=
  fun h => nomatch hstage.symm.trans h.1

theorem lt_of_multiplicity (h : ¬ (w.session s).capabilities.multiplicity = true) :
    s.index < w.sessions.size := by
  refine Decidable.byContradiction fun hs => h ?_
  rw [World.session_out hs]
  rfl

theorem World.Guarded.launching_claim (hw : w.Guarded)
    (hstage : (w.session s).stage = .uninitialized)
    (hmultiplicity : ¬ (w.session s).capabilities.multiplicity = true)
    (hclaimed : ¬ w.claimed = true) :
    World.Launching { w.update s fun session => { session with claims := true } with
      claimed := true } s := by
  let w' : World := { w.update s fun session => { session with claims := true } with claimed := true }
  have hself : w'.session s = { w.session s with claims := true } :=
    (World.session_update _ _ _ _ (lt_of_multiplicity hmultiplicity)).trans (if_pos rfl)
  have hother (t : SessionId) (ht : t ≠ s) : w'.session t = w.session t :=
    World.session_update_of_ne _ _ (Ne.symm ht)
  -- the claim was free, so nobody runs alone, and the session becomes the only holder
  have hnone (t : SessionId) (ht : t ≠ s) : ¬ w'.RunsAlone t := by
    rw [World.RunsAlone, hother t ht]
    exact fun h => hclaimed (hw.claimed.2 ⟨t, h⟩)
  have hholder : (w'.session s).capabilities.multiplicity = false := by
    rw [hself]
    change (w.session s).capabilities.multiplicity = false
    simpa using hmultiplicity
  refine ⟨by rw [hself]; exact hstage, fun t => ?_, iff_of_true rfl ⟨s, ?_⟩, fun t u ht hu => ?_⟩
  · split
    · next ht =>
      subst ht
      exact iff_of_true (by rw [hself]) hholder
    · next ht =>
      rw [hother t ht, hw.claims t]
      exact World.runsAlone_iff (by rw [hother t ht]) (by rw [hother t ht]) |>.symm
  · rwa [if_pos rfl]
  · have heq (t : SessionId) (ht : if t = s then (w'.session s).capabilities.multiplicity = false
        else w'.RunsAlone t) : t = s := by
      by_cases e : t = s
      · exact e
      · rw [if_neg e] at ht
        exact absurd ht (hnone t e)
    exact (heq t ht).trans (heq u hu).symm

theorem World.Guarded.takeClaim (hw : w.Guarded) (hstage : (w.session s).stage = .uninitialized) :
    Ends s.takeClaim w fun r w' => match r with
      | .ok _ => w'.Launching s
      | .error _ => w'.Guarded := by
  by_cases hmultiplicity : (w.session s).capabilities.multiplicity = true
  · have hlaunching : w.Launching s := by
      refine ⟨hstage, World.Guards.congr hw fun t => ?_⟩
      split
      · next ht =>
        subst ht
        exact iff_of_false (by rw [hmultiplicity]; nofun) (World.not_runsAlone hstage)
      · rfl
    exact ends_of_run (by rw [run_takeClaim, if_pos hmultiplicity]) hlaunching
  · by_cases hclaimed : w.claimed = true
    · exact ends_of_run (by rw [run_takeClaim, if_neg hmultiplicity, if_pos hclaimed]) hw
    · exact ends_of_run (by rw [run_takeClaim, if_neg hmultiplicity, if_neg hclaimed])
        (hw.launching_claim hstage hmultiplicity hclaimed)

theorem World.capabilities_construct {r : Except HostError Unit}
    (hrun : s.construct.run w = (r, w')) :
    (w'.session t).capabilities = (w.session t).capabilities := by
  rcases r with e | _
  · obtain ⟨-, rfl⟩ := construct_eq_error hrun
    rw [World.releaseClaim_keeps Session.capabilities fun _ => rfl, World.capabilities_ask]
  · obtain ⟨-, rfl⟩ := construct_eq_ok hrun
    rw [World.setStage, World.capabilities_update, World.capabilities_ask]
    exact fun _ => rfl

/-- A session that could not be started gives the claim back, and one that could keeps it. -/
theorem World.Launching.construct (hw : w.Launching s) : (s.construct.run w).2.Guarded := by
  cases hrun : s.construct.run w with
  | mk r w' =>
    have hother (t : SessionId) (ht : t ≠ s) : w'.RunsAlone t ↔ w.RunsAlone t :=
      World.runsAlone_iff (by rw [session_construct_of_ne hrun ht])
        (by rw [session_construct_of_ne hrun ht])
    have hcapabilities : (w'.session s).capabilities = (w.session s).capabilities :=
      World.capabilities_construct hrun
    have hasked : (w.ask s (w.opening s)).2.Guards _ :=
      hw.guards.of_eq (by rw [World.ask_eq]; rfl) fun _ =>
        World.ask_keeps Session.claims (fun _ _ => rfl) _
    dsimp only
    rcases r with e | _
    -- nothing was started: the claim goes back, and the session is no holder any more
    · obtain ⟨-, rfl⟩ := construct_eq_error hrun
      refine (hasked.releaseClaim s).congr fun t => ?_
      by_cases ht : t = s
      · subst ht
        refine iff_of_false (World.not_runsAlone ?_) fun h => h.2 rfl
        rw [World.releaseClaim_keeps Session.stage fun _ => rfl, World.stage_ask, hw.stage]
      · rw [hother t ht, if_neg ht]
        exact ⟨fun h => ⟨h, ht⟩, fun h => h.1⟩
    -- the holder-to-be has become one that runs alone
    · obtain ⟨-, rfl⟩ := construct_eq_ok hrun
      have hset : ((w.ask s (w.opening s)).2.setStage s .initialized).Guards _ :=
        hasked.of_eq rfl fun _ => World.session_update_keeps Session.claims fun _ => rfl
      refine hset.congr fun t => ?_
      by_cases ht : t = s
      · subst ht
        rw [if_pos rfl, World.RunsAlone, hcapabilities]
        refine and_iff_right_of_imp fun hmultiplicity => ?_
        have hlt : t.index < w.sessions.size := lt_of_multiplicity (by rw [hmultiplicity]; nofun)
        rw [World.setStage, World.session_update _ _ _ _ (by rwa [World.size_ask]), if_pos rfl]
      · rw [hother t ht, if_neg ht]

theorem World.Guarded.start (hw : w.Guarded) (s : SessionId) : (s.start.run w).2.Guarded := by
  refine steady_guarded.start (fun hw => hw) (fun hw => ?_) (fun hstage => ?_) hw
  · refine hw.ended s ?_
    split <;> nofun
  · refine (hw.takeClaim hstage).bind (fun _ w' hw' => ?_) fun _ _ h => h
    have hconstruct := hw'.construct
    unfold Ends
    generalize s.construct.run w' = p at hconstruct ⊢
    rcases p with ⟨_ | _, w₂⟩ <;> exact hconstruct

theorem lasting_guarded : Lasting World.Guarded where
  toSteady := steady_guarded
  owners _ _ _ hw := hw.update fun _ => ⟨rfl, rfl, rfl⟩
  shutDown s hw := hw.shutDown s
  start s hw := hw.start s

/-! ## Refused starts -/

theorem constructionFailed_ne (fault : Fault) : HostError.lifecycle "initialize"
    s!"interpreter construction failed: {fault.message}" ≠ alreadyRunning := by
  intro h
  have hreason := congrArg String.toList (HostError.lifecycle.inj h).2
  simp [String.toList_append, toString] at hreason

theorem shutDown_ne :
    HostError.lifecycle "initialize" "the interpreter session has been shut down" ≠ alreadyRunning := by
  intro h
  have hreason := (HostError.lifecycle.inj h).2
  exact absurd hreason (by decide)

theorem failsWith_launch (s : SessionId) (packages : List String) :
    FailsWith (· ≠ alreadyRunning) (do s.construct; s.preload packages) := by
  refine ((failsWith_construct s).mono ?_).bind fun _ _ _ _ => (failsWith_preload s packages).mono ?_
  · rintro _ ⟨fault, rfl⟩
    exact constructionFailed_ne fault
  · rintro _ (⟨reason, rfl⟩ | ⟨package, message, rfl⟩)
    · intro h
      exact absurd (HostError.lifecycle.inj h).1 (by decide)
    · nofun

theorem run_start_uninitialized (hstage : (w.session s).stage = .uninitialized) :
    s.start.run w = (do
      s.takeClaim
      s.construct
      s.preload (w.session s).config.preload : HostM Unit).run w := by
  unfold SessionId.start HostM.session
  rw [bind_assoc, run_get_bind, pure_bind, hstage]

/-- A start of an interpreter that must be the only one is refused exactly if the claim is held. -/
theorem start_refused_iff (hstage : (w.session s).stage = .uninitialized)
    (hmultiplicity : (w.session s).capabilities.multiplicity = false) :
    (s.start.run w).1 = .error alreadyRunning ↔ w.claimed = true := by
  have hneeds : ¬ (w.session s).capabilities.multiplicity = true := by rw [hmultiplicity]; nofun
  rw [run_start_uninitialized hstage]
  by_cases hclaimed : w.claimed = true
  · refine iff_of_true ?_ hclaimed
    rw [run_bind_error (by rw [run_takeClaim, if_neg hneeds, if_pos hclaimed])]
  -- with the claim taken, every failure on the way has another text
  · refine iff_of_false (fun h => ?_) hclaimed
    rw [run_bind_ok (by rw [run_takeClaim, if_neg hneeds, if_neg hclaimed])] at h
    exact failsWith_launch s _ _ _ _ (Prod.ext h rfl) rfl

theorem start_not_refused (hmultiplicity : (w.session s).capabilities.multiplicity = true) :
    (s.start.run w).1 ≠ .error alreadyRunning := by
  intro h
  cases hstage : (w.session s).stage with
  | initialized =>
    unfold SessionId.start HostM.session at h
    rw [bind_assoc, run_get_bind, pure_bind, hstage] at h
    cases h
  | shutDown =>
    unfold SessionId.start HostM.session at h
    rw [bind_assoc, run_get_bind, pure_bind, hstage] at h
    exact shutDown_ne (Except.error.inj h)
  | uninitialized =>
    rw [run_start_uninitialized hstage,
      run_bind_ok (by rw [run_takeClaim, if_pos hmultiplicity])] at h
    exact failsWith_launch s _ _ _ _ (Prod.ext h rfl) rfl

/-! ## Interpreters with multiplicity -/

theorem World.claimed_releaseClaim (hclaimed : w.claimed = false) (s : SessionId) :
    (w.releaseClaim s).claimed = false := by
  unfold World.releaseClaim
  split
  · rfl
  · exact hclaimed

theorem World.claimed_ended (hclaimed : w.claimed = false) (s : SessionId) (stage : Stage) :
    (((w.destruct s).releaseClaim s).setStage s stage).claimed = false := by
  have hdestructed : (w.destruct s).claimed = false := hclaimed
  exact World.claimed_releaseClaim hdestructed s

theorem World.claimed_shutDown (hclaimed : w.claimed = false) (s : SessionId) :
    (w.shutDown s).claimed = false := by
  unfold World.shutDown
  split
  · exact World.claimed_ended hclaimed s .shutDown
  · exact hclaimed

theorem steady_unclaimed : Steady fun w => w.claimed = false where
  ask request _ hw := by rwa [World.ask_eq]
  count _ _ hw := hw
  shutDownUnkept s hw := by
    unfold World.shutDownUnkept
    split
    · exact hw
    · exact World.claimed_shutDown hw s

theorem start_unclaimed (hmultiplicity : (w.session s).capabilities.multiplicity = true)
    (hclaimed : w.claimed = false) : (s.start.run w).2.claimed = false := by
  refine steady_unclaimed.start (fun hw => hw) (fun hw => World.claimed_ended hw s _)
    (fun hstage => ?_) hclaimed
  have hconstruct : (s.construct.run w).2.claimed = false := by
    have hasked : (w.ask s (w.opening s)).2.claimed = false := by rwa [World.ask_eq]
    rw [run_construct_eq]
    generalize w.ask s (w.opening s) = p at hasked ⊢
    rcases p with ⟨_ | _, w'⟩
    · exact World.claimed_releaseClaim hasked s
    · exact hasked
  unfold Ends
  rw [run_bind_ok (by rw [run_takeClaim, if_pos hmultiplicity])]
  generalize s.construct.run w = p at hconstruct ⊢
  rcases p with ⟨_ | _, w'⟩ <;> exact hconstruct

theorem World.Guarded.create (hw : w.Guarded) (engine : Engine) (config : Config) :
    (w.create engine config).Guarded := by
  have hsame (t : SessionId) : ((w.create engine config).session t).claims = (w.session t).claims ∧
      ((w.create engine config).RunsAlone t ↔ w.RunsAlone t) := by
    unfold World.RunsAlone
    rw [World.session_create]
    split
    · next ht =>
      rw [World.session_out (by omega)]
      exact ⟨rfl, iff_of_false (fun h => nomatch h.1) fun h => nomatch h.1⟩
    · exact ⟨rfl, .rfl⟩
  have hguards : (w.create engine config).Guards _ := World.Guards.of_eq hw rfl fun t => (hsame t).1
  exact hguards.congr fun t => (hsame t).2

/-- In a process, one interpreter at most runs alone, and the claim is held exactly while one does. An
interpreter that would have to run alone is refused exactly then, and any other never is. -/
theorem single_instance (steps : List Step) :
    let w := (after steps).world
    (w.claimed = true ↔ ∃ s, w.RunsAlone s) ∧
      (∀ s t, w.RunsAlone s → w.RunsAlone t → s = t) ∧
      (∀ s, (w.session s).stage = .uninitialized →
        (w.session s).capabilities.multiplicity = false →
          ((s.start.run w).1 = .error alreadyRunning ↔ w.claimed = true)) ∧
      ∀ s, (w.session s).capabilities.multiplicity = true →
        (s.start.run w).1 ≠ .error alreadyRunning ∧
          (w.claimed = false → (s.start.run w).2.claimed = false) := by
  have hempty : World.Guarded {} :=
    ⟨fun s => iff_of_false nofun fun h => (nomatch h.1),
      iff_of_false nofun fun ⟨s, h⟩ => (nomatch h.1), fun s _ h => (nomatch h.1)⟩
  have hguarded : (after steps).world.Guarded :=
    (lasting_guarded.books.after_ends lasting_guarded.retains
      (fun {_ _ engine} config (_ : True) hw => hw.create engine config)
      (fun step _ => by cases step <;> exact trivial) hempty).2
  exact ⟨hguarded.claimed, hguarded.unique, fun s => start_refused_iff,
    fun s hmultiplicity => ⟨start_not_refused hmultiplicity, start_unclaimed hmultiplicity⟩⟩

end Embedding
