import Embedding.Proofs.Host.History

/-!
# Histories are in order

Whatever a host does, its sessions count its handles, and run exactly while their interpreters are
there. A session without handles is the only one that an interpreter is constructed for.
-/

namespace Embedding

/-! ## Sessions in order -/

/-- A session counts its handles, has none before it is started, and its interpreter is there exactly
while it runs. -/
structure Session.Orderly (session : Session) (cells : List CellId) : Prop where
  count : session.liveHandles = cells.length
  idle : session.stage = .uninitialized → session.liveHandles = 0
  constructed : session.engine.interpreter.isConstructed = true ↔ session.stage = .initialized

def World.Orderly (w : World) (hs : List Handle) : Prop :=
  ∀ s, (w.session s).Orderly (cellsOf s hs)

section
variable {w w' : World} {hs hs' : List Handle} {s t : SessionId} {h : Handle}
  {x : Session} {cells : List CellId}

theorem Engine.isConstructed_perform {shape : Shape} (request : Request CellId shape) {e : Engine}
    (he : e.interpreter.isConstructed = true) :
    (e.perform request).2.interpreter.isConstructed = true := by
  unfold Engine.perform
  split
  · exact he
  · obtain ⟨⟨setup, _ | heap⟩, fixed⟩ := e
    · cases he
    · rfl

theorem Session.Orderly.recount (ho : x.Orderly cells) {engine : Engine} {cells' : List CellId}
    {n : Nat} (hengine : engine.interpreter.isConstructed = x.engine.interpreter.isConstructed)
    (hstage : x.stage ≠ .uninitialized) (hn : n = cells'.length) :
    ({ x with engine, liveHandles := n } : Session).Orderly cells' :=
  ⟨hn, fun hidle => absurd hidle hstage, by rw [← ho.constructed, ← hengine]⟩

theorem World.Orderly.stage_ne (ho : w.Orderly hs) (hh : h ∈ hs) :
    (w.session h.session).stage ≠ .uninitialized := by
  intro hstage
  have hcount := (ho h.session).count
  rw [(ho h.session).idle hstage] at hcount
  have := mem_cellsOf hh
  rw [List.length_eq_zero_iff.1 hcount.symm] at this
  cases this

theorem World.Orderly.change (ho : w.Orderly hs) (hsize : w'.sessions.size = w.sessions.size)
    (hother : ∀ t, t ≠ s → w'.session t = w.session t ∧ cellsOf t hs' = cellsOf t hs)
    (hself : s.index < w.sessions.size → (w'.session s).Orderly (cellsOf s hs'))
    (hcells : s.index < w.sessions.size ∨ cellsOf s hs' = cellsOf s hs) : w'.Orderly hs' := by
  intro t
  by_cases ht : t = s
  · subst ht
    by_cases hs : t.index < w.sessions.size
    · exact hself hs
    · have hout := ho t
      rw [session_out hs] at hout
      rw [session_out (by rwa [hsize]), hcells.resolve_left hs]
      exact hout
  · rw [(hother t ht).1, (hother t ht).2]
    exact ho t

theorem World.Orderly.update (ho : w.Orderly hs) {f : Session → Session}
    (hf : (f (w.session s)).Orderly (cellsOf s hs)) : (w.update s f).Orderly hs :=
  ho.change (size_update ..) (fun t ht => ⟨session_update_of_ne _ _ (Ne.symm ht), rfl⟩)
    (fun hs => by rwa [session_update _ _ _ _ hs, if_pos rfl]) (.inr rfl)

end

/-! ## What calls do to sessions in order -/

section
variable {w w' : World} {hs : List Handle} {s t : SessionId} {h : Handle}

theorem World.Orderly.perm {hs' : List Handle} (ho : w.Orderly hs) (hp : hs.Perm hs') :
    w.Orderly hs' := by
  intro s
  have hcells := (cellsOf_perm s hp).length_eq
  exact ⟨hcells ▸ (ho s).count, (ho s).idle, (ho s).constructed⟩

theorem World.Orderly.ask (ho : w.Orderly hs) (hstage : (w.session s).stage = .initialized)
    {shape : Shape} (request : Request CellId shape) : (w.ask s request).2.Orderly hs := by
  refine ho.change (World.size_ask request) (fun t ht => ⟨World.session_ask_of_ne request ht, rfl⟩)
    (fun hs => ?_) (.inr rfl)
  rw [World.session_ask request hs]
  have hconstructed := (ho s).constructed.2 hstage
  exact (ho s).recount ((Engine.isConstructed_perform request hconstructed).trans hconstructed.symm)
    (by rw [hstage]; nofun) (ho s).count

theorem World.Orderly.adopt (ho : w.Orderly hs) (hstage : (w.session s).stage ≠ .uninitialized)
    (cs : List CellId) : (w.adopt s cs.length).Orderly (cs.map (fun c => ⟨s, c⟩) ++ hs) := by
  refine ho.change (World.size_update ..) (fun t ht => ?_) (fun hs => ?_)
    (.inl (World.lt_of_stage_ne hstage))
  · rw [World.adopt, World.session_update_of_ne _ _ (Ne.symm ht), cellsOf_append,
      cellsOf_map_of_ne _ ht]
    exact ⟨rfl, rfl⟩
  · rw [World.adopt, World.session_update _ _ _ _ hs, if_pos rfl, cellsOf_append, cellsOf_map_self]
    exact (ho s).recount rfl hstage (by rw [List.length_append, (ho s).count, Nat.add_comm])

theorem World.Orderly.discount (ho : w.Orderly (h :: hs)) :
    (w.update h.session fun session =>
      { session with liveHandles := session.liveHandles - 1 }).Orderly hs := by
  have hstage := ho.stage_ne (List.mem_cons_self ..)
  have hlt := World.lt_of_stage_ne hstage
  refine ho.change (World.size_update ..) (fun t ht => ?_) (fun _ => ?_) (.inl hlt)
  · rw [World.session_update_of_ne _ _ (Ne.symm ht), cellsOf_cons_of_ne _ ht]
    exact ⟨rfl, rfl⟩
  · rw [World.session_update _ _ _ _ hlt, if_pos rfl]
    have hcount := (ho h.session).count
    rw [cellsOf_cons_self, List.length_cons] at hcount
    exact (ho h.session).recount rfl hstage (by omega)

theorem World.Orderly.ends_ask (ho : w.Orderly hs) (hstage : (w.session s).stage = .initialized)
    {shape : Shape} {request : Request Handle shape}
    {outcome : Except Fault (Answer Handle shape)}
    (hrun : (HostM.ask s request).run w = (.ok outcome, w')) :
    w'.Orderly (HostM.stakesOf outcome ++ hs) ∧ (∀ h ∈ HostM.stakesOf outcome, h.session = s) ∧
      ∀ t, (w'.session t).stage = (w.session t).stage := by
  have ho' := ho.ask hstage (request.map Handle.cell)
  have hstages (t : SessionId) := World.stage_ask (w := w) (s := s) (t := t) (request.map Handle.cell)
  rw [run_ask] at hrun
  generalize w.ask s (request.map Handle.cell) = p at hrun ho' hstages
  obtain ⟨fault | answer, w₁⟩ := p
  · cases hrun
    exact ⟨ho', nofun, hstages⟩
  · cases hrun
    have hstage₁ : (w₁.session s).stage ≠ .uninitialized := by
      rw [hstages s, hstage]
      nofun
    rw [HostM.stakesOf, Answer.stakes_map]
    refine ⟨ho'.adopt hstage₁ _, fun h hh => ?_, fun t => (World.stage_adopt _).trans (hstages t)⟩
    obtain ⟨c, -, rfl⟩ := List.mem_map.1 hh
    rfl

/-- An interpreter that was constructed, and will not be asked any more, is destructed. -/
theorem World.Orderly.finish (ho : w.Orderly hs) {stage : Stage} (hstage : stage ≠ .initialized)
    (hidle : stage = .uninitialized → (w.session s).liveHandles = 0) :
    (((w.destruct s).releaseClaim s).setStage s stage).Orderly hs := by
  refine ho.change (s := s) (World.size_ended ..)
    (fun t ht => ⟨World.session_ended_of_ne ht, rfl⟩) (fun hs => ?_) (.inr rfl)
  have hcount : ((((w.destruct s).releaseClaim s).setStage s stage).session s).liveHandles =
      (w.session s).liveHandles :=
    World.ended_keeps Session.liveHandles (fun _ => rfl) (fun _ => rfl) (fun _ _ => rfl) stage
  have hended : ((((w.destruct s).releaseClaim s).setStage s stage).session
      s).engine.interpreter.isConstructed = false := by
    have hsize : s.index < ((w.destruct s).releaseClaim s).sessions.size := by
      rwa [World.size_releaseClaim, World.destruct, World.size_update]
    rw [World.setStage, World.session_update _ _ _ _ hsize, if_pos rfl,
      World.releaseClaim_keeps (·.engine.interpreter.isConstructed) fun _ => rfl, World.destruct,
      World.session_update _ _ _ _ hs, if_pos rfl]
    rfl
  have hcame : ((((w.destruct s).releaseClaim s).setStage s stage).session s).stage = stage :=
    World.stage_ended hs
  exact ⟨hcount.trans (ho s).count, fun h => hcount.trans (hidle (hcame.symm.trans h)),
    by simp [hended, hcame, hstage]⟩

theorem World.Orderly.shutDown (ho : w.Orderly hs) (s : SessionId) : (w.shutDown s).Orderly hs := by
  unfold World.shutDown
  split
  · exact ho.finish nofun nofun
  · next hstage =>
    exact ho.update ⟨(ho s).count, nofun, by simpa [(ho s).constructed] using hstage⟩

theorem World.Orderly.create (ho : w.Orderly hs) {engine : Engine} (config : Config)
    (hengine : engine.interpreter.isConstructed = false) : (w.create engine config).Orderly hs := by
  intro s
  rw [World.session_create]
  split
  · next hs =>
    have hout := (ho s).count
    rw [World.session_out (by omega)] at hout
    exact ⟨hout, fun _ => rfl, by simp [hengine]⟩
  · exact ho s

theorem Engine.fixedAnswer?_nothing {e : Engine} {request : Request CellId .nothing}
    {r : Except Fault (Answer CellId .nothing)} (hr : e.fixedAnswer? request = some r) :
    ∃ fault, r = .error fault := by
  obtain ⟨answer, -, hanswer⟩ := Option.bind_eq_some_iff.1 hr
  cases answer with
  | fault f => exact ⟨f, (Option.some.inj hanswer).symm⟩
  | _ => cases hanswer

theorem Engine.isConstructed_construct {e : Engine} (he : e.interpreter.isConstructed = false)
    (args : List String) : (e.perform (.construct args)).2.interpreter.isConstructed = true ↔
      (e.perform (.construct args)).1 = .ok () := by
  unfold Engine.perform
  split
  · next r hr =>
    obtain ⟨fault, rfl⟩ := Engine.fixedAnswer?_nothing hr
    simp [he]
  · obtain ⟨⟨setup, _ | heap⟩, fixed⟩ := e
    · simp only [Interpreter.perform]
      split <;> simp [Interpreter.isConstructed]
    · cases he

theorem World.Orderly.isConstructed_opening (ho : w.Orderly hs)
    (hstage : (w.session s).stage = .uninitialized) (hlt : s.index < w.sessions.size) :
    ((w.ask s (w.opening s)).2.session s).engine.interpreter.isConstructed = true ↔
      (w.ask s (w.opening s)).1 = .ok () := by
  have hnot : (w.session s).engine.interpreter.isConstructed = false :=
    Bool.eq_false_iff.2 fun h => nomatch hstage.symm.trans ((ho s).constructed.1 h)
  rw [World.session_ask _ hlt, World.ask_eq]
  exact Engine.isConstructed_construct hnot _

theorem World.Orderly.launch (ho : w.Orderly hs) (hidle : (w.session s).stage = .uninitialized)
    (hsize : w'.sessions.size = w.sessions.size)
    (hother : ∀ t, t ≠ s → w'.session t = w.session t)
    (hself : s.index < w.sessions.size → (w'.session s).liveHandles = (w.session s).liveHandles ∧
      ((w'.session s).engine.interpreter.isConstructed = true ↔
        (w'.session s).stage = .initialized)) : w'.Orderly hs := by
  refine ho.change hsize (fun t ht => ⟨hother t ht, rfl⟩) (fun hs => ?_) (.inr rfl)
  obtain ⟨hcount, hconstructed⟩ := hself hs
  exact ⟨hcount.trans (ho s).count, fun _ => hcount.trans ((ho s).idle hidle), hconstructed⟩

theorem World.Orderly.construct_ok (ho : w.Orderly hs)
    (hstage : (w.session s).stage = .uninitialized) (hlt : s.index < w.sessions.size)
    (hrun : s.construct.run w = (.ok (), w')) :
    w'.Orderly hs ∧ (w'.session s).stage = .initialized := by
  have hlive : (w'.session s).liveHandles = (w.session s).liveHandles :=
    construct_keeps Session.liveHandles (fun _ _ => rfl) (fun _ _ => rfl) (fun _ => rfl) hrun
  have hsize := size_construct hrun
  have hother (t : SessionId) := session_construct_of_ne (t := t) hrun
  obtain ⟨hok, rfl⟩ := construct_eq_ok hrun
  have hconstructed := (ho.isConstructed_opening hstage hlt).2 hok
  have hsession : ((w.ask s (w.opening s)).2.setStage s .initialized).session s =
      { (w.ask s (w.opening s)).2.session s with stage := .initialized } := by
    rw [World.setStage, World.session_update _ _ _ _ (by rwa [World.size_ask]), if_pos rfl]
  refine ⟨ho.launch hstage hsize hother fun _ => ⟨hlive, ?_⟩, by rw [hsession]⟩
  rw [hsession]
  exact iff_of_true hconstructed rfl

theorem World.Orderly.construct_error (ho : w.Orderly hs)
    (hstage : (w.session s).stage = .uninitialized) (hlt : s.index < w.sessions.size)
    {e : HostError} (hrun : s.construct.run w = (.error e, w')) :
    w'.Orderly hs ∧ ∀ t, (w'.session t).stage = (w.session t).stage := by
  have hlive : (w'.session s).liveHandles = (w.session s).liveHandles :=
    construct_keeps Session.liveHandles (fun _ _ => rfl) (fun _ _ => rfl) (fun _ => rfl) hrun
  have hsize := size_construct hrun
  have hother (t : SessionId) := session_construct_of_ne (t := t) hrun
  obtain ⟨hfailed, rfl⟩ := construct_eq_error hrun
  have hstages (t : SessionId) : (((w.ask s (w.opening s)).2.releaseClaim s).session t).stage =
      (w.session t).stage :=
    (World.releaseClaim_keeps Session.stage fun _ => rfl).trans (World.stage_ask _)
  refine ⟨ho.launch hstage hsize hother fun _ => ⟨hlive, ?_⟩, hstages⟩
  rw [World.releaseClaim_keeps (·.engine.interpreter.isConstructed) fun _ => rfl, hstages, hstage,
    ho.isConstructed_opening hstage hlt]
  exact iff_of_false hfailed nofun

end

/-! ## Histories are in order -/

/-- The sessions are in order, and the calls that led to them were. -/
structure InOrder (w : World) (hs : List Handle) (log : List Event) : Prop where
  sessions : w.Orderly hs
  calls : Recorded (fun s => (w.session s).stage) hs log

namespace InOrder
variable {w w' : World} {hs : List Handle} {log : List Event} {s : SessionId} {h : Handle}

theorem silent (ho : InOrder w hs log) (ho' : w'.Orderly hs)
    (hstages : ∀ t, (w'.session t).stage = (w.session t).stage) : InOrder w' hs log :=
  ⟨ho', ho.calls.restage fun s => by rw [hstages]⟩

theorem ask (ho : InOrder w hs log) {named : List CellId} (ho' : w'.Orderly hs)
    (hstage : (w.session s).stage = .initialized) (hnamed : ∀ c ∈ named, ⟨s, c⟩ ∈ hs)
    (hstages : ∀ t, (w'.session t).stage = (w.session t).stage) :
    InOrder w' hs (.asked s named [] :: log) :=
  have hasked : Recorded _ ([] ++ hs) _ := ho.calls.ask hstage hnamed nofun
  ⟨ho', hasked.restage fun t => by rw [hstages]⟩

theorem retain (ho : InOrder w hs log) (hh : h ∈ hs) :
    InOrder (w.retain h) hs (w.counting h ++ log) := by
  unfold World.retain World.counting
  split
  · next hstage =>
    exact ho.ask (ho.sessions.ask hstage _) hstage (by simpa) fun t => World.stage_ask _
  · exact ho

theorem adopt (ho : InOrder w hs log) (hh : h ∈ hs) : InOrder (w.adopt h.session 1) (h :: hs) log :=
  ⟨ho.sessions.adopt (ho.sessions.stage_ne hh) [h.cell], (ho.calls.subset (List.cons_subset.2
    ⟨hh, List.Subset.refl hs⟩)).restage fun t => by rw [World.stage_adopt]⟩

theorem drop (ho : InOrder w (h :: hs) log) : InOrder (w.drop h) hs (w.counting h ++ log) := by
  have ho' := ho.sessions.discount
  have hstages (t : SessionId) : ((w.update h.session fun session =>
      { session with liveHandles := session.liveHandles - 1 }).session t).stage =
        (w.session t).stage := World.session_update_keeps Session.stage fun _ => rfl
  unfold World.drop World.giveBack World.counting
  rw [hstages]
  split
  · next hstage =>
    have hnamed : ∀ c ∈ [h.cell], (⟨h.session, c⟩ : Handle) ∈ h :: hs := by simp
    have hasked : Recorded _ ([] ++ h :: hs) _ := ho.calls.ask hstage hnamed nofun
    exact ⟨ho'.ask (by rw [hstages, hstage]) _, (hasked.subset (List.subset_cons_self ..)).restage
      fun t => by rw [World.stage_ask, hstages]⟩
  · exact ⟨ho', (ho.calls.subset (List.subset_cons_self ..)).restage fun t => by rw [hstages]⟩

theorem diedHandles_eq_map {shape : Shape} (s : SessionId)
    (outcome : Except Fault (Answer Handle shape)) :
    ∃ cs : List CellId, diedHandles s outcome = cs.map fun c => ⟨s, c⟩ := by
  unfold diedHandles
  split
  · next value => exact ⟨[value], rfl⟩
  · exact ⟨[], rfl⟩

theorem exchange (ho : InOrder w hs log) {shape : Shape} {request : Request Handle shape}
    {outcome : Except Fault (Answer Handle shape)} {pending : Except Fault (Option Handle)}
    (hstage : (w.session s).stage = .initialized) (hcells : ∀ h ∈ request.cells, h.session = s)
    (hsub : request.cells ⊆ hs)
    (hrun : (exchange s request).run w = (.ok (outcome, pending), w')) :
    InOrder w' (exchanged s outcome pending ++ hs)
      (.asked s [] ((pendingHandles pending).map Handle.cell) ::
        .asked s (request.cells.map Handle.cell)
          ((diedHandles s outcome ++ HostM.stakesOf outcome).map Handle.cell) :: log) := by
  obtain ⟨_, w₁, hask, hrun⟩ := run_bind_eq_ok hrun
  obtain ⟨_, w₂, htake, hrun⟩ := run_bind_eq_ok hrun
  cases hrun
  obtain ⟨ho₁, hgiven, hstages₁⟩ := ho.sessions.ends_ask hstage hask
  obtain ⟨ho₂, hpending, hstages₂⟩ := ho₁.ends_ask ((hstages₁ s).trans hstage) htake
  obtain ⟨cs, hdied⟩ := diedHandles_eq_map s outcome
  have hstages (t : SessionId) :
      ((w₂.adopt s (diedHandles s outcome).length).session t).stage = (w.session t).stage :=
    (World.stage_adopt _).trans ((hstages₂ t).trans (hstages₁ t))
  have ho₃ := ho₂.adopt (s := s) (by rw [hstages₂, hstages₁, hstage]; nofun) cs
  rw [← List.length_map (fun c => (⟨s, c⟩ : Handle)), ← hdied] at ho₃
  have hpending' : HostM.stakesOf (show Except Fault (Answer Handle .cellIfAny) from pending) =
      pendingHandles pending := rfl
  rw [hpending'] at hpending ho₃
  have hnamed : ∀ c ∈ request.cells.map Handle.cell, (⟨s, c⟩ : Handle) ∈ hs := by
    intro c hc
    obtain ⟨h, hh, rfl⟩ := List.mem_map.1 hc
    exact hcells h hh ▸ hsub hh
  have hanswered : ∀ h ∈ diedHandles s outcome ++ HostM.stakesOf outcome, h.session = s := by
    rw [hdied]
    exact fun h hh => (List.mem_append.1 hh).elim
      (fun hh => by obtain ⟨c, -, rfl⟩ := List.mem_map.1 hh; rfl) (hgiven h)
  have hcalls := (ho.calls.ask hstage hnamed hanswered).ask hstage (List.forall_mem_nil _) hpending
  -- the calls come latest first, and the handles as the exchange lists them
  have hcells : (pendingHandles pending ++
      ((diedHandles s outcome ++ HostM.stakesOf outcome) ++ hs)).Perm
        (exchanged s outcome pending ++ hs) := by
    rw [exchanged, ← List.append_assoc (diedHandles s outcome)]
    exact (List.perm_append_comm_assoc ..).trans (.of_eq (List.append_assoc ..).symm)
  refine ⟨ho₃.perm ?_, (hcalls.subset hcells.symm.subset).restage fun t => by rw [hstages]⟩
  rw [exchanged, List.append_assoc, List.append_assoc]
  exact (List.perm_append_comm_assoc ..).append_left _

theorem construct (ho : InOrder w hs log) (hstage : (w.session s).stage = .uninitialized)
    (hlt : s.index < w.sessions.size) (hrun : s.construct.run w = (.ok (), w')) :
    InOrder w' hs (.constructed s :: log) := by
  obtain ⟨ho', hstage'⟩ := ho.sessions.construct_ok hstage hlt hrun
  refine ⟨ho', ho.calls.construct (by rw [hstage]; nofun) hstage'
    (fun t ht => by rw [session_construct_of_ne hrun ht])
    fun h hh hsession => ?_⟩
  -- no handle is in a cell of the interpreter that was there before
  exact ho.sessions.stage_ne hh (hsession ▸ hstage)

theorem destruct (ho : InOrder w hs log) (hstage : (w.session s).stage = .initialized)
    {stage : Stage} (hne : stage ≠ .initialized)
    (hidle : stage = .uninitialized → (w.session s).liveHandles = 0) :
    InOrder (((w.destruct s).releaseClaim s).setStage s stage) hs (.destructed s :: log) := by
  have hlt : s.index < w.sessions.size := World.lt_of_stage_ne (by rw [hstage]; nofun)
  refine ⟨ho.sessions.finish hne hidle, ho.calls.destruct hstage ?_ fun t ht => ?_⟩
  · rwa [World.stage_ended hlt]
  · rw [World.session_ended_of_ne ht]

theorem abandon (ho : InOrder w hs log) (hstage : (w.session s).stage = .initialized)
    {r : Except HostError Unit} (hrun : s.abandon.run w = (r, w')) :
    InOrder w' hs (.destructed s :: log) := by
  have hcount : (((w.destruct s).releaseClaim s).session s).liveHandles =
      (w.session s).liveHandles :=
    (World.releaseClaim_keeps Session.liveHandles fun _ => rfl).trans
      (World.session_update_keeps Session.liveHandles fun _ => rfl)
  cases hrun
  dsimp only
  split
  · next hzero => exact ho.destruct hstage nofun fun _ => hcount.symm.trans hzero
  · exact ho.destruct hstage nofun nofun

theorem shutDown (ho : InOrder w hs log) (s : SessionId) :
    InOrder (w.shutDown s) hs (w.ending s ++ log) := by
  unfold World.ending
  split
  · next hstage =>
    rw [World.shutDown, if_pos hstage]
    exact ho.destruct hstage (by intro h; cases h) (by intro h; cases h)
  · next hstage =>
    refine ⟨ho.sessions.shutDown s, ho.calls.restage fun t => ?_⟩
    by_cases ht : t = s
    · subst ht
      by_cases hlt : t.index < w.sessions.size
      · rw [World.stage_shutDown hlt]
        exact iff_of_false (by decide) hstage
      · rw [World.session_out hlt, World.session_out (by rwa [World.size_shutDown])]
    · rw [World.session_shutDown_of_ne ht]

theorem update (ho : InOrder w hs log) {f : Session → Session}
    (hf : ∀ x : Session, (f x).liveHandles = x.liveHandles ∧ (f x).stage = x.stage ∧
      (f x).engine = x.engine) : InOrder (w.update s f) hs log := by
  obtain ⟨hcount, hstage, hengine⟩ := hf (w.session s)
  refine ho.silent (ho.sessions.update ?_) fun t =>
    World.session_update_keeps Session.stage fun x => (hf x).2.1
  exact ⟨hcount.trans (ho.sessions s).count, by rw [hcount, hstage]; exact (ho.sessions s).idle,
    by rw [hstage, hengine]; exact (ho.sessions s).constructed⟩

end InOrder

theorem History.inOrder {w : World} {hs : List Handle} {log : List Event} (h : History w hs log) :
    InOrder w hs log := by
  induction h with
  | empty =>
    exact ⟨fun s => ⟨rfl, fun _ => rfl, iff_of_false nofun nofun⟩, ⟨fun s => rfl, nofun, trivial⟩⟩
  | create engine config hengine _ ih =>
    refine ⟨ih.sessions.create config hengine, ih.calls.restage fun s => ?_⟩
    rw [World.session_create]
    split
    · next hs => rw [World.session_out (by omega)]; rfl
    · rfl
  | perm _ hp ih => exact ⟨ih.sessions.perm hp, ih.calls.subset hp.symm.subset⟩
  | clone hh _ ih => exact (ih.retain hh).adopt hh
  | retain hh _ ih => exact ih.retain hh
  | drop _ ih => exact ih.drop
  | spell hh hstage _ ih =>
    rw [World.ask_toBytes]
    exact ih.ask ih.sessions hstage (by simpa) fun _ => rfl
  | exchange request hstage hcells hsub _ hrun ih => exact ih.exchange hstage hcells hsub hrun
  | claim s _ ih =>
    have ho := ih.update (s := s) (f := fun session => { session with claims := true })
      fun _ => ⟨rfl, rfl, rfl⟩
    exact ⟨ho.sessions, ho.calls⟩
  | construct s hlt hstage _ hrun ih => exact ih.construct hstage hlt hrun
  | refuse s hlt hstage _ hrun ih =>
    obtain ⟨ho, hstages⟩ := ih.sessions.construct_error hstage hlt hrun
    exact ih.silent ho hstages
  | abandon s hstage _ hrun ih => exact ih.abandon hstage hrun
  | shutDown s _ ih => exact ih.shutDown s
  | reown s owned namespaces _ ih => exact ih.update fun _ => ⟨rfl, rfl, rfl⟩

end Embedding
