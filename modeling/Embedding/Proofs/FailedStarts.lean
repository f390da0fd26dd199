import Embedding.Proofs.Host.Starts

/-!
# A failed start is as if it had not been tried

Whatever stops a start, the claim that is taken, an interpreter that cannot be constructed or any of
the packages that are loaded first, the world is the one before, and the next try ends in the same way.
Operations that start the interpreter on their way fail with the error of the start.
-/

namespace Embedding

open Console

variable {w w' : World} {s t : SessionId} {hs hs' : List Handle} {h : Handle} {steps : List Step}

/-! ## Sessions that are left alone -/

/-- Sessions that are still to be started are as they were. -/
structure World.Leaves (w w' : World) : Prop where
  size : w'.sessions.size = w.sessions.size
  session : ∀ t, (w'.session t).stage = .uninitialized → w'.session t = w.session t

theorem World.Leaves.refl (w : World) : w.Leaves w := ⟨rfl, fun _ _ => rfl⟩

theorem World.Leaves.trans {w'' : World} (h : w.Leaves w') (h' : w'.Leaves w'') : w.Leaves w'' := by
  refine ⟨h'.size.trans h.size, fun t hstage => ?_⟩
  have hsession := h'.session t hstage
  rw [hsession] at hstage ⊢
  exact h.session t hstage

theorem World.leaves_of_session (hsize : w'.sessions.size = w.sessions.size)
    (hother : ∀ t, t ≠ s → w'.session t = w.session t)
    (hself : s.index < w.sessions.size → (w'.session s).stage ≠ .uninitialized) : w.Leaves w' := by
  refine ⟨hsize, fun t hstage => ?_⟩
  by_cases ht : t = s
  · subst ht
    by_cases hlt : t.index < w.sessions.size
    · exact absurd hstage (hself hlt)
    · rw [World.session_out hlt, World.session_out (by rwa [hsize])]
  · exact hother t ht

theorem World.leaves_update {f : Session → Session} (hf : ∀ x, (f x).stage = x.stage)
    (hstage : (w.session s).stage ≠ .uninitialized) : w.Leaves (w.update s f) := by
  refine World.leaves_of_session (World.size_update ..)
    (fun t ht => World.session_update_of_ne _ _ (Ne.symm ht)) fun _ => ?_
  rwa [World.stage_update hf]

theorem World.leaves_ask (hstage : (w.session s).stage ≠ .uninitialized) {shape : Shape}
    (request : Request CellId shape) : w.Leaves (w.ask s request).2 :=
  World.leaves_of_session (World.size_ask request) (fun _ ht => World.session_ask_of_ne request ht)
    fun _ => by rwa [World.stage_ask]

theorem World.leaves_shutDown (w : World) (s : SessionId) : w.Leaves (w.shutDown s) :=
  World.leaves_of_session (World.size_shutDown w s) (fun _ ht => World.session_shutDown_of_ne ht)
    fun hlt => by rw [World.stage_shutDown hlt]; nofun

theorem World.leaves_shutDownUnkept (w : World) (s : SessionId) : w.Leaves (w.shutDownUnkept s) := by
  unfold World.shutDownUnkept
  split
  · exact World.Leaves.refl w
  · exact w.leaves_shutDown s

theorem World.leaves_retain (w : World) (h : Handle) : w.Leaves (w.retain h) := by
  unfold World.retain
  split
  · next hstage => exact World.leaves_ask (by rw [hstage]; nofun) _
  · exact World.Leaves.refl w

theorem World.leaves_release (hstage : (w.session h.session).stage ≠ .uninitialized) :
    w.Leaves (w.release h) := by
  have hdiscount : w.Leaves (w.update h.session fun session =>
      { session with liveHandles := session.liveHandles - 1 }) :=
    World.leaves_update (fun _ => rfl) hstage
  refine World.Leaves.trans ?_ (World.leaves_shutDownUnkept _ h.session)
  unfold World.giveBack
  split
  · next hruns => exact hdiscount.trans (World.leaves_ask (by rw [hruns]; nofun) _)
  · exact hdiscount

/-! ## Waiting for a start -/

/-- Sessions that are still to be started wait for it, and no handles are in them. -/
structure World.Waits (w : World) (hs : List Handle) : Prop where
  sessions : ∀ s, s.index < w.sessions.size → (w.session s).stage = .uninitialized →
    (w.session s).Waiting
  handles : ∀ h ∈ hs, (w.session h.session).stage ≠ .uninitialized

theorem World.Waits.leaves (hw : w.Waits hs) (hleaves : w.Leaves w')
    (hcells : ∀ h ∈ hs', h ∈ hs ∨ (w'.session h.session).stage ≠ .uninitialized) : w'.Waits hs' := by
  refine ⟨fun s hlt hstage => ?_, fun h hh hstage => ?_⟩
  · have hsession := hleaves.session s hstage
    rw [hsession] at hstage ⊢
    exact hw.sessions s (hleaves.size ▸ hlt) hstage
  · rcases hcells h hh with hold | hnew
    · refine hw.handles h hold ?_
      rwa [← hleaves.session h.session hstage]
    · exact hnew hstage

theorem World.Waits.exchange (hw : w.Waits hs) {shape : Shape} {request : Request Handle shape}
    {outcome : Except Fault (Answer Handle shape)} {pending : Except Fault (Option Handle)}
    (hstage : (w.session s).stage = .initialized)
    (hrun : (exchange s request).run w = (.ok (outcome, pending), w')) :
    w'.Waits (exchanged s outcome pending ++ hs) := by
  have hstarted : (w.session s).stage ≠ .uninitialized := by rw [hstage]; nofun
  obtain ⟨e, n, hcells, rfl⟩ := exchange_refit (World.lt_of_stage_ne hstarted) hrun
  refine hw.leaves (World.leaves_update (fun _ => rfl) hstarted) fun h hh => ?_
  refine (List.mem_append.1 hh).symm.imp_right fun hh => ?_
  have hsame : ((w.refit s e n).session s).stage = (w.session s).stage :=
    World.stage_update fun _ => rfl
  rwa [hcells h hh, hsame]

theorem World.Waits.reown (hw : w.Waits hs) {f : Session → Session}
    (hf : ∀ x, (f x).stage = x.stage ∧ (f x).liveHandles = x.liveHandles ∧ (f x).claims = x.claims) :
    ((w.update s f).shutDownUnkept s).Waits hs := by
  have hleaves := World.leaves_shutDownUnkept (w.update s f) s
  have hstage {t : SessionId} : ((w.update s f).session t).stage = (w.session t).stage :=
    World.stage_update fun x => (hf x).1
  refine ⟨fun t hlt hidle => ?_, fun h hh hidle => ?_⟩
  · have hsession := hleaves.session t hidle
    rw [hsession] at hidle ⊢
    rw [hleaves.size, World.size_update] at hlt
    have hx := hw.sessions t hlt (hstage.symm.trans hidle)
    by_cases ht : t = s
    · subst ht
      -- a session that nothing keeps would have been shut down
      have hkept : ((w.update t f).session t).isKept = true := by
        refine Decidable.byContradiction fun hunkept => ?_
        rw [World.shutDownUnkept, if_neg hunkept] at hsession
        have hended := World.stage_shutDown (w := w.update t f) (s := t)
          (by rwa [World.size_update])
        rw [hsession, hidle] at hended
        cases hended
      have hlive : ((w.update t f).session t).liveHandles = 0 :=
        (World.session_update_keeps Session.liveHandles fun x => (hf x).2.1).trans hx.liveHandles
      have hclaims : ((w.update t f).session t).claims = false :=
        (World.session_update_keeps Session.claims fun x => (hf x).2.2).trans hx.claims
      exact ⟨hidle, hlive, hclaims, Session.anchored_of_isKept hkept hlive⟩
    · rwa [World.session_update_of_ne _ _ (Ne.symm ht)]
  · rw [hleaves.session _ hidle, hstage] at hidle
    exact hw.handles h hh hidle

theorem World.Waits.bindNamespace (hw : w.Waits hs) (s : SessionId) : (w.bindNamespace s).Waits hs := by
  have hstage {t : SessionId} : ((w.bindNamespace s).session t).stage = (w.session t).stage :=
    World.stage_update fun _ => rfl
  refine ⟨fun t hlt hidle => ?_, fun h hh => by rw [hstage]; exact hw.handles h hh⟩
  rw [World.bindNamespace, World.size_update] at hlt
  obtain ⟨hidle, hlive, hclaims, hanchored⟩ := hw.sessions t hlt (hstage.symm.trans hidle)
  unfold World.bindNamespace
  by_cases ht : s = t
  · subst ht
    rw [World.session_update _ _ _ _ hlt, if_pos rfl]
    exact ⟨hidle, hlive, hclaims, by simp [Session.anchored]⟩
  · rw [World.session_update_of_ne _ _ ht]
    exact ⟨hidle, hlive, hclaims, hanchored⟩

theorem failsWith_start (s : SessionId) : FailsWith (fun e => e.handles = []) s.start := by
  intro w e w' hrun
  cases hstage : (w.session s).stage with
  | uninitialized =>
    rw [run_start_uninitialized hstage] at hrun
    have hclaim : FailsWith (fun e => e.handles = []) s.takeClaim := by
      intro w e w' hrun
      rw [run_takeClaim] at hrun
      split at hrun
      · cases hrun
      · split at hrun <;> cases hrun
        rfl
    refine (hclaim.bind fun _ _ _ _ => ((failsWith_construct s).mono ?_).bind fun _ _ _ _ =>
      (failsWith_preload s _).mono fun e he => he.handles) w e w' hrun
    rintro _ ⟨fault, rfl⟩
    rfl
  | initialized =>
    unfold SessionId.start HostM.session at hrun
    rw [bind_assoc, run_get_bind, pure_bind, hstage] at hrun
    cases hrun
  | shutDown =>
    unfold SessionId.start HostM.session at hrun
    rw [bind_assoc, run_get_bind, pure_bind, hstage] at hrun
    cases hrun
    rfl

/-- A start that fails leaves the world as it was. -/
theorem World.Waits.start_error (hw : w.Waits hs) {e : HostError}
    (hrun : s.start.run w = (.error e, w')) : w' = w := by
  by_cases hstage : (w.session s).stage = .uninitialized
  · by_cases hlt : s.index < w.sessions.size
    · exact ((hw.sessions s hlt hstage).start hlt).of_run hrun
    · cases hrun.symm.trans (run_start_out hlt)
  · have hsame := run_start_started hstage
    rwa [hrun] at hsame

theorem World.Waits.start (hw : w.Waits hs) (s : SessionId) :
    Ends s.start w fun r w' => w'.Waits (hostStakes (fun _ => []) r ++ hs) := by
  unfold Ends
  cases hrun : s.start.run w with
  | mk r w' =>
    rcases r with e | ⟨⟩
    · obtain rfl := hw.start_error hrun
      rw [hostStakes, failsWith_start s _ e _ hrun]
      exact hw
    · by_cases hstage : (w.session s).stage = .uninitialized
      · by_cases hlt : s.index < w.sessions.size
        · obtain ⟨hstanding, hsize, hother⟩ := ((hw.sessions s hlt hstage).start hlt).of_run hrun
          have hleaves : w.Leaves w' :=
            World.leaves_of_session hsize hother fun _ => by rw [hstanding.runs.1]; decide
          exact hw.leaves hleaves fun h hh => .inl hh
        · cases hrun.symm.trans (run_start_out hlt)
          exact hw
      · have hsame := run_start_started hstage
        rw [hrun] at hsame
        exact hsame ▸ hw

theorem books_waits : Books World.Waits where
  perm hw hp := hw.leaves (World.Leaves.refl _) fun h hh => .inl (hp.mem_iff.2 hh)
  clone {w hs h} hw hh := by
    have hstage := hw.handles h hh
    have hretain := w.leaves_retain h
    have hretained : ((w.retain h).session h.session).stage ≠ .uninitialized := by
      intro hidle
      rw [hretain.session _ hidle] at hidle
      exact hstage hidle
    have hclone : w.Leaves (w.clone h) :=
      hretain.trans (World.leaves_update (fun _ => rfl) hretained)
    refine hw.leaves hclone fun h' hh' => .inl ?_
    rcases hh' with _ | ⟨_, hh'⟩
    · exact hh
    · exact hh'
  release {w h hs} hw := by
    have hstage := hw.handles h (.head _)
    exact hw.leaves (World.leaves_release hstage) fun h hh => .inl (.tail _ hh)
  exchange request _ hstage _ _ _ hw hrun := hw.exchange hstage hrun
  start {_ _ s} _ hw := hw.start s
  shutDown {w _ s} _ hw := hw.leaves (w.leaves_shutDown s) fun h hh => .inl hh
  disown _ hw := hw.reown fun _ => ⟨rfl, rfl, rfl⟩
  bindNamespace {_ _ s} _ hw := hw.bindNamespace s
  unbindNamespace _ hw := hw.reown fun _ => ⟨rfl, rfl, rfl⟩

theorem retains_waits : Retains World.Waits := fun {w _ h} hw _ =>
  hw.leaves (w.leaves_retain h) fun _ hh => .inl hh

theorem World.Waits.create (hw : w.Waits hs) (engine : Engine) (config : Config) :
    (w.create engine config).Waits hs := by
  refine ⟨fun s hlt hidle => ?_, fun h hh hidle => ?_⟩
  · rw [World.session_create] at hidle ⊢
    split
    · exact ⟨rfl, rfl, rfl, rfl⟩
    · next hs =>
      rw [if_neg hs] at hidle
      rw [World.create, Array.size_push] at hlt
      exact hw.sessions s (by omega) hidle
  · have hstage := hw.handles h hh
    have hlt := World.lt_of_stage_ne hstage
    rw [World.session_create, if_neg (by omega)] at hidle
    exact hstage hidle

theorem waits_after (steps : List Step) : (after steps).world.Waits (after steps).handles :=
  (books_waits.after_ends (P := fun _ => True) retains_waits
    (fun config _ hw => hw.create _ config) (fun step _ => by cases step <;> exact trivial)
    ⟨fun s hlt => absurd hlt (Nat.not_lt_zero _), nofun⟩).2

/-! ## Operations that start the interpreter -/

/-- An operation that starts the interpreter on its way, and the handles that it takes over. -/
inductive Starting (s : SessionId) : List Handle → {α : Type} → HostM α → Prop
  | ready (operation : String) : Starting s [] (s.ensureReady operation)
  | load (package : String) : Starting s [] (s.load package)
  | getGlobal (name : String) : Starting s [] (s.getGlobal name)
  | setGlobal (name : String) (v : Value) : Starting s [] (s.setGlobal name v)
  | eval (source : String) : Starting s [] (s.eval source)
  | function (name : String) : Starting s [] (s.function name)
  | call (name : String) (args : List Value) : Starting s [] (s.call name args)
  | toForeign (v : Value) : Starting s [] (s.toForeign v)
  | newArray (items : List Value) : Starting s (Value.handlesOfItems items) (s.newArray items)
  | newHash (entries : List (String × Value)) :
    Starting s (Value.handlesOfEntries entries) (s.newHash entries)

theorem run_ensureReady_failed {e : HostError} (hstage : (w.session s).stage = .uninitialized)
    (hlazy : (w.session s).config.lazy = true) (hrun : s.start.run w = (.error e, w'))
    (operation : String) : (s.ensureReady operation).run w = (.error e, w') := by
  have hstarts : ((w.session s).stage = .uninitialized && (w.session s).config.lazy) = true := by
    simp [hstage, hlazy]
  unfold SessionId.ensureReady HostM.session
  rw [bind_assoc, run_get_bind, pure_bind]
  dsimp only
  rw [if_pos hstarts, run_bind_error hrun]

theorem Starting.failed {taken : List Handle} {α : Type} {x : HostM α} (hx : Starting s taken x)
    {e : HostError} (hready : ∀ operation, (s.ensureReady operation).run w = (.error e, w)) :
    x.run w = (.error e, w.releaseAll taken) := by
  cases hx with
  | ready operation => exact hready operation
  | load => exact run_bind_error (hready "load")
  | getGlobal => exact run_bind_error (hready "get_global")
  | setGlobal => exact run_bind_error (hready "set_global")
  | eval => exact run_bind_error (hready "eval")
  | function => exact run_bind_error (hready "function")
  | call => exact run_bind_error (run_bind_error (hready "function"))
  | toForeign => exact run_bind_error (hready crossing)
  | newArray items =>
    refine run_bind_error ?_
    rw [HostM.run_orRelease, run_bind_error (hready "new_array")]
  | newHash entries =>
    refine run_bind_error ?_
    rw [HostM.run_orRelease, run_bind_error (hready "new_hash")]

/-- A start that fails, in whatever state of the sessions and for whatever reason, leaves the world as
it was, so that it fails again in the same way. So does every operation that starts the interpreter of
a session that lets it, but for the handles that the operation takes over. -/
theorem failed_start_changes_nothing (steps : List Step) {e : HostError}
    (hfailed : (s.start.run (after steps).world).1 = .error e) :
    let w := (after steps).world
    s.start.run w = (.error e, w) ∧
      ((w.session s).stage = .uninitialized → (w.session s).config.lazy = true →
        ∀ {taken : List Handle} {α : Type} {x : HostM α}, Starting s taken x →
          x.run w = (.error e, w.releaseAll taken)) := by
  have hrun : s.start.run (after steps).world = (.error e, (after steps).world) := by
    refine Prod.ext hfailed ((waits_after steps).start_error (Prod.ext hfailed rfl))
  exact ⟨hrun, fun hstage hlazy _ _ _ hx => hx.failed (run_ensureReady_failed hstage hlazy hrun)⟩

/-- An interpreter that must be the only one, with a package that loads and one that does not compile. -/
def faltering : Engine where
  interpreter.setup := (({ capabilities := {} } : Setup).provide { name := "Good", scalars := [("x", .int 1)] }).provide
    { name := "Bad", compileError := some "syntax error" }

/-- A session that gets as far as the second package, and one that needs the claim as well. -/
def falterings : List Step := [
  .create faltering { preload := ["Good", "Bad", "Good"] },
  .create faltering {},
  .line { command := .session ⟨0⟩ .start },
  .line { command := .session ⟨1⟩ (.newArray [.int 1]), into := some "a" },
  .line { command := .session ⟨1⟩ .shutDown }]

def refusedPackage? : Except HostError Unit → Option (String × String)
  | .error (.loading package message) => some (package, message)
  | _ => none

theorem failed_start_changes_nothing_faltering :
    let w := (after falterings).world
    let e : HostError := .loading "Bad" "syntax error\nCompilation failed in require"
    (w.session ⟨0⟩).stage = .uninitialized ∧ (w.session ⟨0⟩).config.lazy = true ∧
      (SessionId.start ⟨0⟩).run w = (.error e, w) ∧
      (SessionId.getGlobal ⟨0⟩ "$Good::x").run w = (.error e, w) := by
  have hstage : ((after falterings).world.session ⟨0⟩).stage = .uninitialized := by decide +kernel
  have hlazy : ((after falterings).world.session ⟨0⟩).config.lazy = true := by decide +kernel
  have hfailed : ((SessionId.start ⟨0⟩).run (after falterings).world).1 =
      .error (.loading "Bad" "syntax error\nCompilation failed in require") := by
    have hrefused : refusedPackage? ((SessionId.start ⟨0⟩).run (after falterings).world).1 =
        some ("Bad", "syntax error\nCompilation failed in require") := by decide +kernel
    generalize ((SessionId.start ⟨0⟩).run (after falterings).world).1 = r at hrefused ⊢
    unfold refusedPackage? at hrefused
    split at hrefused <;> cases hrefused
    rfl
  have hnothing := failed_start_changes_nothing falterings hfailed
  generalize (after falterings).world = w at hstage hlazy hnothing ⊢
  obtain ⟨hrun, hstarting⟩ := hnothing
  exact ⟨hstage, hlazy, hrun, hstarting hstage hlazy (.getGlobal "$Good::x")⟩

end Embedding
