import Embedding.Proofs.Heap.Requests
import Embedding.Proofs.Host.Sessions

/-!
# Balanced worlds

A world is balanced for the handles of the host when every session counts its handles, and the heap
of every running session is good for the cells of its handles. What "good" means is left open: a
`Regime` is what the heaps of a session must be like for it to go on through permitted requests, and
a `Discipline` what they must be like for it to go on through all operations.
-/

namespace Embedding

/-- Which requests may be made to an interpreter. -/
abbrev Asking := ⦃shape : Shape⦄ → Request CellId shape → Prop

/-- What goes on through every crossing with a permitted request, which ends with a look at the
pending error, and through clones and releases. `Good h σ` speaks of a heap and of the stakes that the
host has in it. -/
structure Regime (asked : Asking) (setup : Setup) (Good : Heap → List CellId → Prop) : Prop where
  perm : ∀ {h σ τ}, Good h σ → σ.Perm τ → Good h τ
  cross : ∀ {h h₁ : Heap} {σ} {shape : Shape} {r : Except Fault (Answer CellId shape)}
    (request : Request CellId shape), asked request → Good h σ → request.isPlain = true →
    request.cells ⊆ σ → (Heap.answer setup request).run h = (r, h₁) →
    ∃ o h₂, Heap.takeError.run h₁ = (.ok o, h₂) ∧
      Good h₂ (o.toList ++ (resultStakes Answer.stakes r ++ σ))
  retain : ∀ {h σ c}, Good h σ → c ∈ σ → Good ((Heap.retain c).run h).2 (c :: σ)
  release : ∀ {h σ c}, Good h (c :: σ) → Good ((Heap.release c).run h).2 σ

/-- What goes on through the start of an interpreter and through all crossings. -/
structure Discipline (origin : Session) (Good : Heap → List CellId → Prop) : Prop extends
    Regime (fun _ _ => True) origin.engine.interpreter.setup Good where
  boot : ∀ {h}, (Heap.boot origin.engine.interpreter.setup origin.config.interpreterArgs).run
    .initial = (.ok (), h) → Good h []

def cellsOf (s : SessionId) (hs : List Handle) : List CellId :=
  (hs.filter fun h => h.session = s).map Handle.cell

/-- A session that started as `origin` and in which the host has handles in `cells`. -/
structure Session.Balanced (session origin : Session) (Good : Heap → List CellId → Prop)
    (cells : List CellId) : Prop where
  count : session.liveHandles = cells.length
  fixed : session.engine.fixed = []
  setup : session.engine.interpreter.setup = origin.engine.interpreter.setup
  config : session.config = origin.config
  idle : session.stage = .uninitialized → cells = [] ∧ session.engine.interpreter.heap = none
  running : session.stage = .initialized →
    ∃ h, session.engine.interpreter.heap = some h ∧ Good h cells

def Balanced (origin : World) (Good : SessionId → Heap → List CellId → Prop) (w : World)
    (hs : List Handle) : Prop :=
  ∀ s, (w.session s).Balanced (origin.session s) (Good s) (cellsOf s hs)

variable {origin : World} {Good : SessionId → Heap → List CellId → Prop} {w w' : World}
  {hs hs' : List Handle} {s t : SessionId}

/-! ## Cells of handles -/

theorem cellsOf_append (s : SessionId) (hs hs' : List Handle) :
    cellsOf s (hs ++ hs') = cellsOf s hs ++ cellsOf s hs' := by simp [cellsOf]

theorem cellsOf_cons_self (h : Handle) (hs : List Handle) :
    cellsOf h.session (h :: hs) = h.cell :: cellsOf h.session hs := by simp [cellsOf]

theorem cellsOf_cons_of_ne {h : Handle} (hs : List Handle) (ht : t ≠ h.session) :
    cellsOf t (h :: hs) = cellsOf t hs := by simp [cellsOf, Ne.symm ht]

theorem cellsOf_map_self (s : SessionId) (cs : List CellId) :
    cellsOf s (cs.map fun c => ⟨s, c⟩) = cs := by
  simp [cellsOf, List.filter_map, Function.comp_def]

theorem cellsOf_map_of_ne (cs : List CellId) (ht : t ≠ s) :
    cellsOf t (cs.map fun c => ⟨s, c⟩) = [] := by
  simp [cellsOf, List.filter_map, Function.comp_def, Ne.symm ht]

theorem cellsOf_perm (s : SessionId) (h : hs.Perm hs') : (cellsOf s hs).Perm (cellsOf s hs') :=
  (h.filter _).map _

theorem mem_cellsOf {h : Handle} (hh : h ∈ hs) : h.cell ∈ cellsOf h.session hs :=
  List.mem_map_of_mem (by simpa using hh)

theorem count_cellsOf (s : SessionId) (c : CellId) (hs : List Handle) :
    (cellsOf s hs).count c = hs.count ⟨s, c⟩ := by
  induction hs with
  | nil => rfl
  | cons h hs ih =>
    by_cases ht : h.session = s
    · subst ht
      obtain ⟨s, d⟩ := h
      rw [cellsOf_cons_self ⟨s, d⟩, List.count_cons, List.count_cons, ih]
      simp
    · rw [cellsOf_cons_of_ne hs (Ne.symm ht), ih, List.count_cons_of_ne]
      exact fun h => ht (congrArg Handle.session h)

theorem cells_subset_cellsOf {shape : Shape} {request : Request Handle shape}
    (hsub : request.cells ⊆ hs) (hsession : ∀ h ∈ request.cells, h.session = s) :
    (request.map Handle.cell).cells ⊆ cellsOf s hs := by
  intro c hc
  rw [Request.cells_map] at hc
  obtain ⟨h, hh, rfl⟩ := List.mem_map.1 hc
  exact hsession h hh ▸ mem_cellsOf (hsub hh)

/-! ## What a balanced world is like -/

theorem Balanced.runsOn (hI : Balanced origin Good w hs) (hstage : (w.session s).stage = .initialized) :
    ∃ h, w.RunsOn s (origin.session s).engine.interpreter.setup h ∧ Good s h (cellsOf s hs) := by
  obtain ⟨h, hheap, hgood⟩ := (hI s).running hstage
  have hfixed := (hI s).fixed
  have hsetup := (hI s).setup
  refine ⟨h, ⟨hstage, ?_⟩, hgood⟩
  generalize (w.session s).engine = engine at hheap hfixed hsetup
  obtain ⟨⟨setup, heap⟩, fixed⟩ := engine
  obtain rfl : heap = some h := hheap
  obtain rfl : fixed = [] := hfixed
  obtain rfl : setup = _ := hsetup
  rfl

/-- Handles keep their sessions from being uninitialized. -/
theorem Balanced.stage_ne (hI : Balanced origin Good w hs) {h : Handle} (hh : h ∈ hs) :
    (w.session h.session).stage ≠ .uninitialized := fun hstage => by
  have := mem_cellsOf hh
  rw [((hI h.session).idle hstage).1] at this
  cases this

theorem Balanced.change (hI : Balanced origin Good w hs)
    (hother : ∀ t, t ≠ s → w'.session t = w.session t ∧ cellsOf t hs' = cellsOf t hs)
    (hself : (w'.session s).Balanced (origin.session s) (Good s) (cellsOf s hs')) :
    Balanced origin Good w' hs' := by
  intro t
  by_cases ht : t = s
  · exact ht ▸ hself
  · rw [(hother t ht).1, (hother t ht).2]
    exact hI t

/-- What balance looks at in a session. -/
def Session.balance (session : Session) :
    Nat × List (Operation × FixedAnswer) × Setup × Config × Stage × Option Heap :=
  (session.liveHandles, session.engine.fixed, session.engine.interpreter.setup, session.config,
    session.stage, session.engine.interpreter.heap)

theorem Session.Balanced.of_eq {session session' first : Session} {good : Heap → List CellId → Prop}
    {cells : List CellId} (hI : session.Balanced first good cells)
    (h : session'.balance = session.balance) : session'.Balanced first good cells := by
  simp only [Session.balance, Prod.mk.injEq] at h
  obtain ⟨hcount, hfixed, hsetup, hconfig, hstage, hheap⟩ := h
  exact ⟨hcount ▸ hI.count, hfixed ▸ hI.fixed, hsetup ▸ hI.setup, hconfig ▸ hI.config,
    hstage ▸ hheap ▸ hI.idle, hstage ▸ hheap ▸ hI.running⟩

theorem Balanced.update (hI : Balanced origin Good w hs) {f : Session → Session}
    (hf : ∀ session, (f session).balance = session.balance) :
    Balanced origin Good (w.update s f) hs := fun t =>
  (hI t).of_eq (World.session_update_keeps Session.balance hf)

/-! ## Clones and releases -/

section
variable {asked : SessionId → Asking}
  (hregime : ∀ s, Regime (asked s) (origin.session s).engine.interpreter.setup (Good s))
include hregime

theorem Balanced.perm (hI : Balanced origin Good w hs) (hp : hs.Perm hs') : Balanced origin Good w hs' := fun s => by
  have hcells := cellsOf_perm s hp
  refine ⟨hcells.length_eq ▸ (hI s).count, (hI s).fixed, (hI s).setup, (hI s).config,
    fun hstage => ?_, fun hstage => ?_⟩
  · obtain ⟨hnil, hheap⟩ := (hI s).idle hstage
    exact ⟨(hnil ▸ hcells).nil_eq.symm, hheap⟩
  · obtain ⟨h, hheap, hgood⟩ := (hI s).running hstage
    exact ⟨h, hheap, (hregime s).perm hgood hcells⟩

omit hregime in
theorem Balanced.put (hI : Balanced origin Good w hs) {setup : Setup} {h h' : Heap}
    {cs : List CellId} (hr : w.RunsOn s setup h) (hgood : Good s h' (cs ++ cellsOf s hs)) :
    Balanced origin Good (w.put s h' cs.length) (cs.map (fun c => ⟨s, c⟩) ++ hs) := by
  refine hI.change (s := s) (fun t ht => ?_) ?_
  · rw [World.put, World.session_update_of_ne _ _ (Ne.symm ht), cellsOf_append, cellsOf_map_of_ne _ ht]
    exact ⟨rfl, rfl⟩
  · have hI := hI s
    rw [cellsOf_append, cellsOf_map_self, World.put, World.session_update _ _ _ _ hr.lt, if_pos rfl]
    refine ⟨?_, hI.fixed, hI.setup, hI.config, fun hstage => ?_, fun _ => ⟨h', rfl, hgood⟩⟩
    · simp [hI.count, Nat.add_comm]
    · cases hstage.symm.trans hr.stage

theorem Balanced.clone (hI : Balanced origin Good w hs) {h : Handle} (hh : h ∈ hs) :
    Balanced origin Good (w.clone h) (h :: hs) := by
  unfold World.clone World.retain
  split
  · next hstage =>
    obtain ⟨heap, hr, hgood⟩ := hI.runsOn hstage
    have hretain := (hregime h.session).retain hgood (mem_cellsOf hh)
    have hput := hI.put hr (show Good h.session _ ([h.cell] ++ cellsOf h.session hs) from hretain)
    rw [hr.ask, World.adopt_put]
    exact hput
  · next hstage =>
    have hidle := hI.stage_ne hh
    refine hI.change (s := h.session) (fun t ht => ?_) ?_
    · rw [World.adopt, World.session_update_of_ne _ _ (Ne.symm ht), cellsOf_cons_of_ne _ ht]
      exact ⟨rfl, rfl⟩
    · have hI := hI h.session
      rw [World.adopt, World.session_update _ _ _ _ (World.lt_of_stage_ne hidle), if_pos rfl,
        cellsOf_cons_self]
      exact ⟨by simp [hI.count], hI.fixed, hI.setup, hI.config, fun h => absurd h hidle,
        fun h => absurd h hstage⟩

end

/-- What balance looks at in a session that does not run. -/
def Session.standing (session : Session) : Nat × List (Operation × FixedAnswer) × Setup × Config :=
  (session.liveHandles, session.engine.fixed, session.engine.interpreter.setup, session.config)

theorem Session.Balanced.of_standing {session session' first : Session}
    {good : Heap → List CellId → Prop} {cells : List CellId}
    (hI : session.Balanced first good cells) (h : session'.standing = session.standing)
    (hidle : session'.stage = .uninitialized →
      cells = [] ∧ session'.engine.interpreter.heap = none)
    (hstage : session'.stage ≠ .initialized) : session'.Balanced first good cells := by
  simp only [Session.standing, Prod.mk.injEq] at h
  obtain ⟨hcount, hfixed, hsetup, hconfig⟩ := h
  exact ⟨hcount ▸ hI.count, hfixed ▸ hI.fixed, hsetup ▸ hI.setup, hconfig ▸ hI.config, hidle,
    fun h => absurd h hstage⟩

theorem Balanced.shutDown (hI : Balanced origin Good w hs) (s : SessionId) :
    Balanced origin Good (w.shutDown s) hs := by
  refine hI.change (s := s) (fun t ht => ⟨World.session_shutDown_of_ne ht, rfl⟩) ?_
  by_cases hs : s.index < w.sessions.size
  · have hstage := World.stage_shutDown hs
    have hstanding := World.shutDown_keeps (w := w) (s := s) (t := s) Session.standing
      (fun _ => rfl) (fun _ => rfl) fun _ _ => rfl
    refine (hI s).of_standing hstanding (fun h => ?_) fun h => ?_ <;>
      exact absurd (hstage.symm.trans h) nofun
  · have hout := hI s
    rw [World.session_out hs] at hout
    rwa [World.session_out (by rwa [World.size_shutDown])]

theorem Balanced.shutDownUnkept (hI : Balanced origin Good w hs) (s : SessionId) :
    Balanced origin Good (w.shutDownUnkept s) hs := by
  unfold World.shutDownUnkept
  split
  · exact hI
  · exact hI.shutDown s

theorem Balanced.release {asked : SessionId → Asking} {h : Handle}
    (hregime : ∀ s, Regime (asked s) (origin.session s).engine.interpreter.setup (Good s))
    (hI : Balanced origin Good w (h :: hs)) : Balanced origin Good (w.release h) hs := by
  unfold World.release
  refine Balanced.shutDownUnkept ?_ _
  have hidle := hI.stage_ne (List.mem_cons_self ..)
  have hlt := World.lt_of_stage_ne hidle
  have hother (t : SessionId) (ht : t ≠ h.session) : cellsOf t hs = cellsOf t (h :: hs) :=
    (cellsOf_cons_of_ne hs ht).symm
  -- the handle is discounted first, and then its stake goes back if the session runs
  have hcount := (hI h.session).count
  rw [cellsOf_cons_self, List.length_cons] at hcount
  have hsession : (w.update h.session fun session =>
      { session with liveHandles := session.liveHandles - 1 }).session h.session =
        { w.session h.session with liveHandles := (w.session h.session).liveHandles - 1 } := by
    rw [World.session_update _ _ _ _ hlt, if_pos rfl]
  unfold World.giveBack
  split
  · next hstage =>
    rw [hsession] at hstage
    obtain ⟨heap, hr, hgood⟩ := hI.runsOn hstage
    have hr' : (w.update h.session fun session =>
        { session with liveHandles := session.liveHandles - 1 }).RunsOn h.session _ heap :=
      ⟨(congrArg Session.stage hsession).trans hr.stage,
        (congrArg Session.engine hsession).trans hr.engine⟩
    rw [cellsOf_cons_self] at hgood
    have hrelease := (hregime h.session).release hgood
    rw [hr'.ask]
    refine hI.change (s := h.session) (fun t ht => ?_) ?_
    · rw [World.put, World.session_update_of_ne _ _ (Ne.symm ht),
        World.session_update_of_ne _ _ (Ne.symm ht), hother t ht]
      exact ⟨rfl, rfl⟩
    · rw [World.put, World.session_update _ _ _ _ hr'.lt, if_pos rfl, hsession]
      have hI := hI h.session
      exact ⟨by simp [hcount], hI.fixed, hI.setup, hI.config, fun h => absurd h hidle,
        fun _ => ⟨_, rfl, hrelease⟩⟩
  · next hstage =>
    refine hI.change (s := h.session) (fun t ht => ?_) ?_
    · rw [World.session_update_of_ne _ _ (Ne.symm ht), hother t ht]
      exact ⟨rfl, rfl⟩
    · rw [hsession] at hstage ⊢
      have hI := hI h.session
      exact ⟨by simp [hcount], hI.fixed, hI.setup, hI.config, fun h => absurd h hidle,
        fun h => absurd h hstage⟩

/-! ## Starts and ends -/

theorem run_boot (setup : Setup) (args : List String) : ∃ h,
    (Heap.boot setup args).run .initial = (.ok (), h) ∧
      (⟨setup, none⟩ : Interpreter).perform (.construct args) = (.ok (), ⟨setup, some h⟩) := by
  obtain ⟨_, h, hrun, -, -⟩ := Heap.gives_boot .initial setup args [] Heap.sound_initial
  exact ⟨h, hrun, by simp only [Interpreter.perform, hrun]⟩

theorem run_construct {session : Session} {h : Heap} (hsession : w.session s = session)
    (hfixed : session.engine.fixed = []) (hheap : session.engine.interpreter.heap = none)
    (hboot : (Heap.boot session.engine.interpreter.setup session.config.interpreterArgs).run .initial =
      (.ok (), h)) :
    s.construct.run w = (.ok (), (w.put s h 0).setStage s .initialized) := by
  subst hsession
  obtain ⟨h', hboot', hperform⟩ := run_boot (w.session s).engine.interpreter.setup
    (w.session s).config.interpreterArgs
  obtain rfl : h = h' := by
    have := hboot.symm.trans hboot'
    cases this
    rfl
  have hask : w.ask s (.construct (w.session s).config.interpreterArgs) =
      (.ok (), w.put s h 0) := by
    have hperform' : (w.session s).engine.interpreter.perform
        (.construct (w.session s).config.interpreterArgs) =
          (.ok (), ⟨(w.session s).engine.interpreter.setup, some h⟩) := by
      rw [← hperform, ← hheap]
    rw [World.ask_eq, World.ask_session hfixed hperform']
    congr 1
    refine World.update_congr ?_
    simp [hfixed]
  unfold SessionId.construct HostM.session
  rw [bind_assoc, run_get_bind, pure_bind, run_bind, Embedding.run_ask]
  simp only [Request.map, hask, World.adopt_put, Answer.stakes]
  rfl

theorem session_started (hs : s.index < w.sessions.size) (h : Heap) :
    ((w.put s h 0).setStage s .initialized).session s =
      let session := w.session s
      let engine := session.engine
      { session with
        engine := { engine with interpreter := { engine.interpreter with heap := some h } }
        stage := .initialized } := by
  rw [World.setStage, World.session_update _ _ _ _ (by rwa [World.put, World.size_update]),
    if_pos rfl, World.put, World.session_update _ _ _ _ hs, if_pos rfl]
  rfl

theorem Balanced.construct (hI : Balanced origin Good w hs)
    (hgood : ∀ {h}, (Heap.boot (origin.session s).engine.interpreter.setup
      (origin.session s).config.interpreterArgs).run .initial = (.ok (), h) → Good s h [])
    (hstage : (w.session s).stage = .uninitialized) :
    ∃ w', s.construct.run w = (.ok (), w') ∧ Balanced origin Good w' hs := by
  have hself := hI s
  obtain ⟨hnil, hheap⟩ := hself.idle hstage
  obtain ⟨h, hboot, -⟩ := run_boot (w.session s).engine.interpreter.setup
    (w.session s).config.interpreterArgs
  refine ⟨_, run_construct rfl hself.fixed hheap hboot, ?_⟩
  by_cases hs : s.index < w.sessions.size
  · refine hI.change (s := s) (fun t ht => ?_) ?_
    · rw [World.setStage, World.put, World.session_update_of_ne _ _ (Ne.symm ht),
        World.session_update_of_ne _ _ (Ne.symm ht)]
      exact ⟨rfl, rfl⟩
    · rw [session_started hs]
      rw [hself.setup, hself.config] at hboot
      exact ⟨hself.count, hself.fixed, hself.setup, hself.config, (by intro hstage; cases hstage),
        fun _ => ⟨h, rfl, hnil ▸ hgood hboot⟩⟩
  · rwa [World.put, World.session_update_out hs, World.setStage, World.session_update_out hs]

theorem Balanced.ends_construct (hI : Balanced origin Good w hs)
    (hgood : ∀ {h}, (Heap.boot (origin.session s).engine.interpreter.setup
      (origin.session s).config.interpreterArgs).run .initial = (.ok (), h) → Good s h [])
    (hstage : (w.session s).stage = .uninitialized) :
    Ends s.construct w fun r w' => Balanced origin Good w' (hostStakes (fun _ => []) r ++ hs) := by
  obtain ⟨w', hrun, hI'⟩ := hI.construct hgood hstage
  exact ends_of_run hrun hI'

/-- An abandoned session can start again only if no handle is left. -/
theorem Balanced.abandon (hI : Balanced origin Good w hs) (s : SessionId) :
    Ends s.abandon w fun _ w' => Balanced origin Good w' hs := by
  let ended := (w.destruct s).releaseClaim s
  let stage : Stage := if (ended.session s).liveHandles = 0 then .uninitialized else .shutDown
  change Balanced origin Good (ended.setStage s stage) hs
  have hkeeps {β : Type} (p : Session → β) (hclaims : ∀ x : Session, p { x with claims := false } = p x)
      (hdestruct : ∀ x : Session, p { x with engine :=
        { x.engine with interpreter := x.engine.interpreter.destruct } } = p x) :
      p (ended.session s) = p (w.session s) := by
    rw [World.releaseClaim_keeps p hclaims, World.destruct]
    exact World.session_update_keeps p hdestruct
  have hsize : ended.sessions.size = w.sessions.size := by
    rw [World.size_releaseClaim, World.destruct, World.size_update]
  refine hI.change (s := s) (fun t ht => ?_) ?_
  · rw [World.setStage, World.session_update_of_ne _ _ (Ne.symm ht),
      World.session_releaseClaim_of_ne ht, World.destruct,
      World.session_update_of_ne _ _ (Ne.symm ht)]
    exact ⟨rfl, rfl⟩
  by_cases hs : s.index < w.sessions.size
  · have hheap : (ended.session s).engine.interpreter.heap = none := by
      rw [World.releaseClaim_keeps (·.engine.interpreter.heap) fun _ => rfl, World.destruct,
        World.session_update _ _ _ _ hs, if_pos rfl]
      rfl
    rw [World.setStage, World.session_update _ _ _ _ (hsize ▸ hs), if_pos rfl]
    refine (hI s).of_standing (hkeeps Session.standing (fun _ => rfl) fun _ => rfl)
      (fun hstage => ⟨?_, hheap⟩) ?_
    · -- the session may start again only because no handle was left when it was abandoned
      have hzero : (ended.session s).liveHandles = 0 := by
        refine Decidable.byContradiction fun hn => ?_
        rw [show stage = .shutDown from if_neg hn] at hstage
        cases hstage
      rw [hkeeps Session.liveHandles (fun _ => rfl) fun _ => rfl, (hI s).count] at hzero
      exact List.length_eq_zero_iff.1 hzero
    · intro (hstage : stage = .initialized)
      unfold stage at hstage
      split at hstage <;> cases hstage
  · have hout := hI s
    rw [World.session_out hs] at hout
    rwa [World.setStage, World.session_out (by rwa [World.size_update, hsize])]

/-! ## Crossings -/

section
variable {asked : SessionId → Asking}
  (hregime : ∀ s, Regime (asked s) (origin.session s).engine.interpreter.setup (Good s))
include hregime

theorem stock_balanced : Stock (Balanced origin Good) where
  perm := Balanced.perm hregime
  clone hI hh := hI.clone hregime hh
  release := Balanced.release hregime

omit hregime in
theorem isPlain_map {κ ι : Type} (f : κ → ι) {shape : Shape} (request : Request κ shape) :
    (request.map f).isPlain = request.isPlain := by cases request <;> rfl

omit hregime in
theorem exchanged_handled (s : SessionId) (r : Except Fault (Answer CellId shape))
    (o : Option CellId) : exchanged s (handled s r) (handledError s (.ok o)) =
      (resultStakes Answer.stakes r ++ o.toList).map fun c => ⟨s, c⟩ := by
  have hpending : pendingHandles (handledError s (.ok o)) = o.toList.map fun c => ⟨s, c⟩ := by
    cases o <;> rfl
  rw [exchanged, hpending, List.map_append, ← List.append_assoc]
  congr 1
  rcases r with fault | answer
  · cases fault <;> rfl
  · exact Answer.stakes_map _ answer

/-- An exchange with a running interpreter is one of the requests and looks that heaps go on
through. -/
theorem Balanced.exchange (hI : Balanced origin Good w hs) {shape : Shape}
    (request : Request Handle shape) (hasked : asked s (request.map Handle.cell)) {outcome :
    Except Fault (Answer Handle shape)} {pending : Except Fault (Option Handle)}
    (hstage : (w.session s).stage = .initialized) (hplain : request.isPlain = true)
    (hcells : ∀ h ∈ request.cells, h.session = s) (hsub : request.cells ⊆ hs)
    (hrun : (exchange s request).run w = (.ok (outcome, pending), w')) :
    Balanced origin Good w' (exchanged s outcome pending ++ hs) := by
  obtain ⟨h, hr, hgood⟩ := hI.runsOn hstage
  cases hanswer : (Heap.answer (origin.session s).engine.interpreter.setup
    (request.map Handle.cell)).run h with
  | mk r h₁ =>
    obtain ⟨o, h₂, htake, hgood'⟩ := (hregime s).cross (request.map Handle.cell) hasked hgood
      ((isPlain_map Handle.cell request).trans hplain) (cells_subset_cellsOf hsub hcells) hanswer
    rw [hr.run_exchange hanswer htake] at hrun
    cases hrun
    rw [exchanged_handled, List.length_map]
    refine hI.put hr ((hregime s).perm hgood' ?_)
    rw [← List.append_assoc]
    exact List.perm_append_comm.append_right _

end

theorem Balanced.claim (hI : Balanced origin Good w hs) (s : SessionId) : Balanced origin Good
    { w.update s fun session => { session with claims := true } with claimed := true } hs :=
  fun t => (hI t).of_eq (World.session_update_keeps Session.balance fun _ => rfl)

theorem Balanced.disown (hI : Balanced origin Good w hs) (s : SessionId) :
    Balanced origin Good (w.disown s) hs := by
  unfold World.disown
  refine Balanced.shutDownUnkept ?_ s
  exact hI.update fun _ => rfl

theorem Balanced.bindNamespace (hI : Balanced origin Good w hs) (s : SessionId) :
    Balanced origin Good (w.bindNamespace s) hs := hI.update fun _ => rfl

theorem Balanced.unbindNamespace (hI : Balanced origin Good w hs) (s : SessionId) :
    Balanced origin Good (w.unbindNamespace s) hs := by
  unfold World.unbindNamespace
  refine Balanced.shutDownUnkept ?_ s
  exact hI.update fun _ => rfl

section
variable {may : Permission} {asked : SessionId → Asking}
  (hregime : ∀ s, Regime (asked s) (origin.session s).engine.interpreter.setup (Good s))
  (hmay : ∀ {shape : Shape} {s : SessionId} {request : Request Handle shape},
    may s request → asked s (request.map Handle.cell))
include hregime hmay

theorem dealing_balanced : Dealing may (Balanced origin Good) where
  toStock := stock_balanced hregime
  exchange request hrequest hstage hplain hcells hsub hI hrun :=
    hI.exchange hregime request (hmay hrequest) hstage hplain hcells hsub hrun

theorem affairs_balanced [Reads may] (hboot : ∀ s {h}, (Heap.boot
    (origin.session s).engine.interpreter.setup (origin.session s).config.interpreterArgs).run
      .initial = (.ok (), h) → Good s h []) : Affairs may (Balanced origin Good) where
  toDealing := dealing_balanced hregime hmay
  start _ hI := (dealing_balanced hregime hmay).ends_start_of_steps (fun hI => hI.claim _)
    (fun hstage hI => hI.ends_construct (hboot _) hstage) (fun hI => hI.abandon _) hI
  shutDown _ hI := hI.shutDown _
  disown _ hI := hI.disown _
  bindNamespace _ hI := hI.bindNamespace _
  unbindNamespace _ hI := hI.unbindNamespace _

end

theorem books_balanced (hdisc : ∀ s, Discipline (origin.session s) (Good s)) :
    Books (Balanced origin Good) :=
  affairs_balanced (fun s => (hdisc s).toRegime) (fun _ => trivial) fun s _ => (hdisc s).boot

theorem World.Fresh.balanced (hfresh : w.Fresh) : Balanced w Good w [] := fun s =>
  ⟨hfresh.liveHandles s, hfresh.fixed s, rfl, rfl, fun _ => ⟨rfl, hfresh.heap s⟩,
    fun h => nomatch (hfresh.stage s).symm.trans h⟩

end Embedding
