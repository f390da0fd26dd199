import Embedding.Proofs.Host.Keeping
import Embedding.Proofs.SingleInstance

/-!
# Starts that fail

A start that fails undoes what it did before: the interpreter ends, the claim goes back, and the
handles that came up while packages were loaded are gone by then.
-/

namespace Embedding

variable {w w' : World} {s t : SessionId} {e e' : Engine} {n : Nat} {hs : List Handle} {h : Handle}

/-! ## Engines that were asked -/

/-- The engine differs from another one in its heap at most. -/
structure Engine.SameMake (e e' : Engine) : Prop where
  setup : e.interpreter.setup = e'.interpreter.setup
  fixed : e.fixed = e'.fixed

/-- An interpreter that was not there before it was asked is ended without a trace. -/
theorem Engine.SameMake.destruct_eq (he : e.SameMake e') (hheap : e'.interpreter.heap = none) :
    { e with interpreter := e.interpreter.destruct } = e' := by
  obtain ⟨⟨setup, heap⟩, fixed⟩ := e
  obtain ⟨⟨setup', heap'⟩, fixed'⟩ := e'
  obtain ⟨rfl, rfl⟩ := he
  obtain rfl : heap' = none := hheap
  rfl

theorem Engine.sameMake_perform {shape : Shape} (request : Request CellId shape)
    (he : e.SameMake e') : (e.perform request).2.SameMake e' := by
  refine ⟨(Engine.setup_perform request e).trans he.setup, Eq.trans ?_ he.fixed⟩
  unfold Engine.perform
  split <;> rfl

/-! ## Sessions on other engines -/

/-- The world after a session came to another engine and to a number of handles. -/
def World.refit (s : SessionId) (e : Engine) (n : Nat) (w : World) : World :=
  w.update s fun session => { session with engine := e, liveHandles := n }

theorem World.session_refit (hs : s.index < w.sessions.size) (e : Engine) (n : Nat) :
    (w.refit s e n).session s = { w.session s with engine := e, liveHandles := n } := by
  rw [World.refit, World.session_update _ _ _ _ hs, if_pos rfl]

theorem World.ask_refit (hs : s.index < w.sessions.size) {shape : Shape}
    (request : Request CellId shape) : (w.refit s e n).ask s request =
      ((e.perform request).1, w.refit s (e.perform request).2 n) := by
  rw [World.ask_eq, World.session_refit hs]
  refine congrArg (Prod.mk _) ?_
  rw [World.refit, World.update_update]
  exact World.update_congr rfl

theorem World.adopt_refit (w : World) (s : SessionId) (e : Engine) (m n : Nat) :
    (w.refit s e m).adopt s n = w.refit s e (m + n) := by
  rw [World.adopt, World.refit, World.update_update]
  rfl

/-- A session that runs and that something other than its handles keeps. -/
structure World.Standing (w : World) (s : SessionId) : Prop where
  lt : s.index < w.sessions.size
  runs : w.RunsAnchored s

theorem World.Standing.refit (hw : w.Standing s) (e : Engine) (n : Nat) :
    (w.refit s e n).Standing s := by
  refine ⟨by rw [World.refit, World.size_update]; exact hw.lt, hw.runs.of_eq ?_ ?_⟩
  · rw [World.session_refit hw.lt]
  · rw [World.session_refit hw.lt]
    rfl

theorem World.Standing.clone (hw : w.Standing h.session) :
    ∃ e', e'.SameMake e ∧ (w.refit h.session e n).clone h = w.refit h.session e' (n + 1) := by
  refine ⟨_, Engine.sameMake_perform (.retain h.cell) ⟨rfl, rfl⟩, ?_⟩
  rw [World.clone, World.retain, if_pos (hw.refit e n).runs.1, World.ask_refit hw.lt,
    World.adopt_refit]

theorem World.Standing.release (hw : w.Standing h.session) :
    ∃ e', e'.SameMake e ∧ (w.refit h.session e (n + 1)).release h = w.refit h.session e' n := by
  refine ⟨_, Engine.sameMake_perform (.release h.cell) ⟨rfl, rfl⟩, ?_⟩
  have hdiscount : ((w.refit h.session e (n + 1)).update h.session fun session =>
      { session with liveHandles := session.liveHandles - 1 }) = w.refit h.session e n := by
    rw [World.refit, World.update_update]
    rfl
  have hstanding := hw.refit (e.perform (.release h.cell)).2 n
  unfold World.release World.giveBack
  dsimp only
  rw [hdiscount, if_pos (hw.refit e n).runs.1, World.ask_refit hw.lt, World.shutDownUnkept,
    if_pos (Session.isKept_of_anchored hstanding.runs.2)]

theorem run_ask_refit (hs : s.index < w.sessions.size) {shape : Shape}
    (request : Request Handle shape) :
    ∃ outcome e', e'.SameMake e ∧ (∀ h ∈ HostM.stakesOf outcome, h.session = s) ∧
      (HostM.ask s request).run (w.refit s e n) =
        (.ok outcome, w.refit s e' (n + (HostM.stakesOf outcome).length)) := by
  have hsame := Engine.sameMake_perform (request.map Handle.cell) (e := e) ⟨rfl, rfl⟩
  rw [run_ask, World.ask_refit hs]
  generalize e.perform (request.map Handle.cell) = p at hsame
  obtain ⟨fault | answer, e'⟩ := p
  · exact ⟨.error fault, e', hsame, nofun, rfl⟩
  · refine ⟨.ok (answer.map fun c => ⟨s, c⟩), e', hsame, ?_, ?_⟩
    · intro h hh
      rw [HostM.stakesOf, Answer.stakes_map] at hh
      obtain ⟨c, -, rfl⟩ := List.mem_map.1 hh
      rfl
    · rw [HostM.stakesOf, Answer.stakes_map, List.length_map, ← World.adopt_refit]

theorem run_exchange_refit (hs : s.index < w.sessions.size) {shape : Shape}
    (request : Request Handle shape) :
    ∃ outcome pending e', e'.SameMake e ∧ (∀ h ∈ exchanged s outcome pending, h.session = s) ∧
      (exchange s request).run (w.refit s e n) =
        (.ok (outcome, pending), w.refit s e' (n + (exchanged s outcome pending).length)) := by
  obtain ⟨outcome, e₁, hsame₁, hcells₁, hrun₁⟩ := run_ask_refit (e := e) (n := n) hs request
  obtain ⟨pending, e₂, hsame₂, hcells₂, hrun₂⟩ := run_ask_refit (e := e₁)
    (n := n + (HostM.stakesOf outcome).length) hs .takeError
  refine ⟨outcome, pending, e₂,
    ⟨hsame₂.setup.trans hsame₁.setup, hsame₂.fixed.trans hsame₁.fixed⟩, ?_, ?_⟩
  · obtain ⟨cs, hdied⟩ := InOrder.diedHandles_eq_map s outcome
    intro h hh
    rw [exchanged, hdied] at hh
    rcases List.mem_append.1 hh with hh | hh
    · obtain ⟨c, -, rfl⟩ := List.mem_map.1 hh
      rfl
    · exact (List.mem_append.1 hh).elim (hcells₁ h) (hcells₂ h)
  · have hlength : n + (exchanged s outcome pending).length =
        n + (HostM.stakesOf outcome).length + (pendingHandles pending).length +
          (diedHandles s outcome).length := by
      rw [exchanged, List.length_append, List.length_append]
      omega
    rw [exchange, run_bind_ok hrun₁, run_bind_ok hrun₂, hlength]
    exact congrArg (Prod.mk _) (World.adopt_refit ..)

theorem World.refit_self (w : World) (s : SessionId) :
    w.refit s (w.session s).engine (w.session s).liveHandles = w :=
  (World.update_congr (g := fun session => session) rfl).trans (World.update_id w s)

theorem exchange_refit (hs : s.index < w.sessions.size) {shape : Shape}
    {request : Request Handle shape} {outcome : Except Fault (Answer Handle shape)}
    {pending : Except Fault (Option Handle)}
    (hrun : (exchange s request).run w = (.ok (outcome, pending), w')) :
    ∃ e n, (∀ h ∈ exchanged s outcome pending, h.session = s) ∧ w' = w.refit s e n := by
  obtain ⟨outcome', pending', e, -, hcells, hrun'⟩ := run_exchange_refit
    (e := (w.session s).engine) (n := (w.session s).liveHandles) hs request
  rw [World.refit_self] at hrun'
  cases hrun.symm.trans hrun'
  exact ⟨e, _, hcells, rfl⟩

/-! ## Loading packages -/

theorem Request.cells_of_looks {κ : Type} {shape : Shape} {request : Request κ shape}
    (hlooks : request.looks = true) : request.cells ≠ [] := by
  cases request <;> first | exact List.cons_ne_nil _ _ | exact nomatch hlooks

/-- Whatever a session does on its own goes on in its engine and in its number of handles. -/
theorem dealing_refit (hw : w.Standing s) (e : Engine) : Dealing (Within (· = s)) fun w' hs =>
    (∀ h ∈ hs, h.session = s) ∧ ∃ e', e'.SameMake e ∧ w' = w.refit s e' hs.length where
  perm := by
    rintro _ hs hs' ⟨hcells, e', hsame, rfl⟩ hp
    exact ⟨fun h hh => hcells h (hp.mem_iff.2 hh), e', hsame, by rw [hp.length_eq]⟩
  clone := by
    rintro _ hs h ⟨hcells, e', hsame, rfl⟩ hh
    obtain rfl := hcells h hh
    obtain ⟨e₁, hsame₁, hclone⟩ := hw.clone (e := e') (n := hs.length)
    refine ⟨?_, e₁, ⟨hsame₁.setup.trans hsame.setup, hsame₁.fixed.trans hsame.fixed⟩, hclone⟩
    exact List.forall_mem_cons.2 ⟨rfl, hcells⟩
  release := by
    rintro _ h hs ⟨hcells, e', hsame, rfl⟩
    obtain ⟨rfl, hcells⟩ := List.forall_mem_cons.1 hcells
    obtain ⟨e₁, hsame₁, hrelease⟩ := hw.release (e := e') (n := hs.length)
    exact ⟨hcells, e₁, ⟨hsame₁.setup.trans hsame.setup, hsame₁.fixed.trans hsame.fixed⟩, hrelease⟩
  exchange := by
    rintro _ w₂ hs t shape outcome pending request hscope - - hsession hsub ⟨hcells, e', hsame, rfl⟩ hrun
    -- a look at another session would need a handle of that session
    have ht : t = s := by
      refine hscope.elim And.left fun hlooks => ?_
      obtain ⟨h, hh⟩ := List.exists_mem_of_ne_nil _ (Request.cells_of_looks hlooks)
      exact (hsession h hh).symm.trans (hcells h (hsub hh))
    subst ht
    obtain ⟨outcome', pending', e₁, hsame₁, hcells₁, hrun₁⟩ :=
      run_exchange_refit (e := e') (n := hs.length) hw.lt request
    cases hrun.symm.trans hrun₁
    refine ⟨?_, e₁, ⟨hsame₁.setup.trans hsame.setup, hsame₁.fixed.trans hsame.fixed⟩, ?_⟩
    · intro h hh
      exact (List.mem_append.1 hh).elim (hcells₁ h) (hcells h)
    · rw [List.length_append, Nat.add_comm]

/-! ## Undoing a start -/

/-- A session that was not started yet: it has no handles and no claim, and something else keeps it. -/
structure Session.Waiting (x : Session) : Prop where
  stage : x.stage = .uninitialized
  liveHandles : x.liveHandles = 0
  claims : x.claims = false
  anchored : x.anchored = true

/-- Whether the interpreter of a session must be the only one. -/
def World.alone (w : World) (s : SessionId) : Bool := !(w.session s).capabilities.multiplicity

/-- The world in which a session became another one, and has the claim if it needs it. -/
def World.claimFor (s : SessionId) (f : Session → Session) (w : World) : World :=
  { w.update s fun session => { f session with claims := w.alone s } with
    claimed := w.alone s || w.claimed }

theorem World.update_claimFor (w : World) (s : SessionId) {f g k : Session → Session}
    (hg : g { f (w.session s) with claims := w.alone s } =
      { k (w.session s) with claims := w.alone s }) :
    (w.claimFor s f).update s g = w.claimFor s k := by
  refine congrArg (World.mk · (w.alone s || w.claimed)) ?_
  refine (congrArg World.sessions (World.update_update w s _ g)).trans (congrArg World.sessions ?_)
  exact World.update_congr hg

theorem World.session_claimFor (hs : s.index < w.sessions.size) (f : Session → Session) :
    (w.claimFor s f).session s = { f (w.session s) with claims := w.alone s } :=
  (World.session_update _ _ _ _ hs).trans (if_pos rfl)

/-- The world in which the session runs on the engine, with the claim if it needs it. -/
def World.launched (s : SessionId) (e : Engine) (w : World) : World :=
  w.claimFor s fun session => { session with engine := e, stage := .initialized }

theorem Session.Waiting.standing (hx : (w.session s).Waiting) (hs : s.index < w.sessions.size)
    (e : Engine) : (w.launched s e).Standing s := by
  have hsession : (w.launched s e).session s = _ := World.session_claimFor hs _
  refine ⟨lt_of_lt_of_eq hs (World.size_update ..).symm, ?_, ?_⟩
  · rw [hsession]
  · rw [hsession]
    exact hx.anchored

theorem Engine.perform_construct_error {args : List String} {fault : Fault}
    (hfailed : (e.perform (.construct args)).1 = .error fault) :
    (e.perform (.construct args)).2 = e := by
  unfold Engine.perform at hfailed ⊢
  split
  · rfl
  · next hfixed =>
    rw [hfixed] at hfailed
    obtain ⟨⟨setup, _ | heap⟩, fixed⟩ := e
    · simp only [Interpreter.perform] at hfailed ⊢
      split at hfailed
      · cases hfailed
      · rfl
    · rfl

theorem Engine.perform_construct_ok {args : List String}
    (hok : (e.perform (.construct args)).1 = .ok ()) : e.interpreter.heap = none := by
  unfold Engine.perform at hok
  split at hok
  · next r hr =>
    obtain ⟨fault, rfl⟩ := Engine.fixedAnswer?_nothing hr
    cases hok
  · obtain ⟨⟨setup, _ | heap⟩, fixed⟩ := e
    · rfl
    · cases hok

theorem World.claimFor_of_not_alone (halone : w.alone s = false) (f : Session → Session) :
    w.claimFor s f = w.update s fun session => { f session with claims := false } := by
  rw [World.claimFor, halone, Bool.false_or]
  rfl

theorem World.releaseClaim_claimFor (hs : s.index < w.sessions.size)
    (hclaimed : w.alone s = true → w.claimed = false) (f : Session → Session) :
    (w.claimFor s f).releaseClaim s = w.update s fun session => { f session with claims := false } := by
  rw [World.releaseClaim, World.session_claimFor hs]
  dsimp only
  cases halone : w.alone s with
  | false => rw [if_neg Bool.false_ne_true, World.claimFor_of_not_alone halone]
  | true =>
    have hfree : w.claimed = false := hclaimed halone
    rw [if_pos rfl]
    refine Eq.trans (congrArg (World.mk · false) ?_) (congrArg (World.mk _) hfree.symm)
    exact congrArg World.sessions (World.update_update w s
      (fun session => { f session with claims := w.alone s })
      fun session => { session with claims := false })

theorem Session.Waiting.eq {x : Session} (hx : x.Waiting) :
    { x with stage := .uninitialized, liveHandles := 0, claims := false } = x := by
  obtain ⟨engine, config, stage, liveHandles, namespaces, owned, claims⟩ := x
  obtain ⟨rfl, rfl, rfl, -⟩ := hx
  rfl

theorem Session.Waiting.claims_eq {x : Session} (hx : x.Waiting) : { x with claims := false } = x := by
  rw [← hx.claims]

theorem World.update_eq_self {f : Session → Session} (hf : f (w.session s) = w.session s) :
    w.update s f = w :=
  (World.update_congr (g := fun session => session) hf).trans (World.update_id w s)

theorem Session.Waiting.run_takeClaim (hx : (w.session s).Waiting) : s.takeClaim.run w =
    if w.alone s = true ∧ w.claimed = true then (.error alreadyRunning, w)
    else (.ok (), w.claimFor s id) := by
  rw [Embedding.run_takeClaim]
  cases halone : w.alone s with
  | false =>
    rw [if_pos (by simpa [World.alone] using halone), if_neg (by simp),
      World.claimFor_of_not_alone halone, World.update_eq_self hx.claims_eq]
  | true =>
    rw [if_neg (by simpa [World.alone] using halone)]
    cases hclaimed : w.claimed with
    | true => rfl
    | false =>
      rw [if_neg Bool.false_ne_true, if_neg (by simp), World.claimFor, halone, Bool.true_or]
      rfl

theorem World.ask_claimFor (hs : s.index < w.sessions.size) {shape : Shape}
    (request : Request CellId shape) : (w.claimFor s id).ask s request =
      (((w.session s).engine.perform request).1,
        w.claimFor s fun x => { x with engine := ((w.session s).engine.perform request).2 }) := by
  rw [World.ask_eq, World.session_claimFor hs]
  exact congrArg (Prod.mk _) (World.update_claimFor w s rfl)

/-- A session is launched if the claim and the interpreter are to be had, and else nothing happens. -/
theorem Session.Waiting.launch (hx : (w.session s).Waiting) (hs : s.index < w.sessions.size) :
    Ends (do s.takeClaim; s.construct) w fun r w' => match r with
      | .ok _ => (w.session s).engine.interpreter.heap = none ∧ (w.alone s = true → w.claimed = false) ∧
          ∃ e, e.SameMake (w.session s).engine ∧ w' = w.launched s e
      | .error _ => w' = w := by
  -- the claim is refused, or taken if it is needed
  by_cases hrefused : w.alone s = true ∧ w.claimed = true
  · exact ends_of_run (run_bind_error (by rw [hx.run_takeClaim, if_pos hrefused])) rfl
  have hclaimed : w.alone s = true → w.claimed = false := by simpa using hrefused
  unfold Ends
  rw [run_bind_ok (by rw [hx.run_takeClaim, if_neg hrefused]), run_construct_eq, World.ask_claimFor hs]
  have hsame := Engine.sameMake_perform ((w.claimFor s id).opening s) (e := (w.session s).engine)
    ⟨rfl, rfl⟩
  cases hperform : (w.session s).engine.perform ((w.claimFor s id).opening s) with
  | mk r e =>
    rw [hperform] at hsame
    cases r with
    | ok _ =>
      have hheap := Engine.perform_construct_ok (congrArg Prod.fst hperform)
      exact ⟨hheap, hclaimed, e, hsame, World.update_claimFor w s rfl⟩
    | error fault =>
      have hengine := Engine.perform_construct_error (congrArg Prod.fst hperform)
      have he : e = (w.session s).engine := (congrArg Prod.snd hperform).symm.trans hengine
      dsimp only
      rw [World.releaseClaim_claimFor hs hclaimed, he]
      exact World.update_eq_self hx.claims_eq

/-- What a start leaves of its session when a package could not be loaded is what it found. -/
theorem Session.Waiting.abandon (hx : (w.session s).Waiting) (hs : s.index < w.sessions.size)
    (hheap : (w.session s).engine.interpreter.heap = none)
    (hclaimed : w.alone s = true → w.claimed = false) (hsame : e.SameMake (w.session s).engine)
    (e' : Engine) : (s.abandon.run ((w.launched s e').refit s e 0)).2 = w := by
  have hdestructed : ((w.launched s e').refit s e 0).destruct s =
      w.claimFor s fun session => { session with
        engine := { e with interpreter := e.interpreter.destruct }, stage := .initialized,
        liveHandles := 0 } := by
    rw [World.launched, World.refit, World.update_claimFor w s
      (k := fun session => { session with engine := e, stage := .initialized, liveHandles := 0 }) rfl]
    exact World.update_claimFor w s rfl
  change (let w' := (((w.launched s e').refit s e 0).destruct s).releaseClaim s
    w'.setStage s (if (w'.session s).liveHandles = 0 then .uninitialized else .shutDown)) = w
  dsimp only
  rw [hdestructed, World.releaseClaim_claimFor hs hclaimed, World.session_update _ _ _ _ hs, if_pos rfl,
    if_pos rfl, World.setStage, World.update_update]
  refine World.update_eq_self (Eq.trans ?_ hx.eq)
  rw [Function.comp_apply, hsame.destruct_eq hheap]

theorem HostError.OfLoading.handles {e : HostError} (he : e.OfLoading) : e.handles = [] := by
  rcases he with ⟨reason, rfl⟩ | ⟨package, message, rfl⟩ <;> rfl

/-- A start from a session that waits for it: the session runs, or nothing happened. -/
theorem Session.Waiting.start (hx : (w.session s).Waiting) (hs : s.index < w.sessions.size) :
    Ends s.start w fun r w' => match r with
      | .ok _ => w'.Standing s ∧ w'.sessions.size = w.sessions.size ∧
          ∀ t, t ≠ s → w'.session t = w.session t
      | .error _ => w' = w := by
  refine Ends.congr ((hx.launch hs).bind (f := fun _ => s.preload (w.session s).config.preload) ?_
    fun _ _ h => h) (by rw [run_start_uninitialized hx.stage, bind_assoc])
  rintro _ _ ⟨hheap, hclaimed, e, hsame, rfl⟩
  have : InScope (· = s) s := ⟨rfl⟩
  let J (w' : World) (hs : List Handle) : Prop := (∀ h ∈ hs, h.session = s) ∧
    ∃ e', e'.SameMake e ∧ w' = (w.launched s e).refit s e' hs.length
  have hJ : J (w.launched s e) [] := by
    refine ⟨nofun, e, ⟨rfl, rfl⟩, (World.update_eq_self ?_).symm⟩
    rw [World.launched, World.session_claimFor hs]
    dsimp only
    rw [List.length_nil, ← hx.liveHandles]
  -- the interpreter is abandoned when no handle is left of what was done with it
  have habandon {w' : World} {hs' : List Handle} (hJ : J w' hs') :
      Ends s.abandon w' fun _ w' => hs' = [] → w' = w := by
    rintro rfl
    obtain ⟨-, e', hsame', rfl⟩ := hJ
    exact hx.abandon hs hheap hclaimed
      ⟨hsame'.setup.trans hsame.setup, hsame'.fixed.trans hsame.fixed⟩ e
  have hpreload := (dealing_refit (hx.standing hs e) e).ends_preload (s := s)
    (I := fun w' hs => hs = [] → w' = w) habandon (w.session s).config.preload hJ
  have herror := failsWith_preload s (w.session s).config.preload (w.launched s e)
  unfold Ends at hpreload ⊢
  generalize (s.preload (w.session s).config.preload).run (w.launched s e) = p at hpreload herror ⊢
  obtain ⟨e | _, w'⟩ := p
  · exact hpreload (by rw [(herror e w' rfl).handles]; rfl)
  · obtain ⟨-, e', -, rfl⟩ := hpreload
    refine ⟨(hx.standing hs e).refit e' _, ?_, fun t ht => ?_⟩
    · rw [World.refit, World.size_update]
      exact World.size_update ..
    · rw [World.refit, World.session_update_of_ne _ _ (Ne.symm ht)]
      exact World.session_update_of_ne _ _ (Ne.symm ht)

end Embedding
