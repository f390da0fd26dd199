import Embedding.Proofs.Heap.Visits
import Embedding.Proofs.Host.Arrivals

/-!
# Bystanders

A session is a bystander of what is done to another one. It may be looked at, where a value has handles
in its cells, but it is neither started nor ended, nor asked for anything that would change a cell.
-/

namespace Embedding

open Heap

variable {origin w w' : World} {hs hs' : List Handle} {s t : SessionId} {x : Session} {setup : Setup}
  {g h h₁ : Heap} {lost σ C : List CellId} {c : CellId} {shape : Shape}

/-! ## Visits -/

/-- Cells may be looked at, and some of them iterated over. -/
def visiting (C : List CellId) : Asking := fun _ request =>
  request.looks = true ∧ (request.turns = true → request.cells ⊆ C)

theorem Heap.Visited.reads {request : Request CellId shape} (hv : Visited C g h) (hs : h.Sound σ)
    (hreads : request.reads = true) (hcells : request.cells ⊆ σ) :
    Visited C g ((answer setup request).run h).2 := by
  cases request with
  | deref c =>
    have hretain (target : CellId) : Preserves (Visited C g) (Heap.retain target) :=
      fun _ hv => hv.retain target
    have hderef : Preserves (Visited C g) (deref c) :=
      (preserves_query _).bind fun target => (hretain target).bind fun _ _ hv => hv
    exact hderef h hv
  | newRef c => exact hv.newRef (hs.isLive (hcells (List.mem_cons_self ..)))
  | kind c | flags c | toInt c | toNum c | toBytes c | className c => exact hv
  | _ => cases hreads

theorem Heap.Visited.answer {request : Request CellId shape} (hv : Visited C g h) (hs : h.Sound σ)
    (hasked : visiting C request) (hcells : request.cells ⊆ σ) :
    Visited C g ((answer setup request).run h).2 := by
  obtain ⟨hlooks, hturns⟩ := hasked
  by_cases hreads : request.reads = true
  · exact hv.reads hs hreads hcells
  have hretain (c : CellId) : Preserves (Visited C g) (Heap.retain c) := fun _ hv => hv.retain c
  cases request with
  | hashRewind c => exact hv.turned (turned_hashRewind h c) (hturns rfl)
  | hashNext c =>
    change Visited C g ((hashNext c).run h).2
    rcases hashNext_cases h c with he | ⟨h₁, value, ht, he⟩ <;> rw [he]
    · exact hv
    · exact (hv.turned ht (hturns rfl)).retain value
  | arrayFetch c index => exact preserves_fetch hretain (·.items c) (·[index]?) h hv
  | hashFetch c key => exact preserves_fetch hretain (·.entries c) (·.get? key) h hv
  | refcount c | identity c | arrayLength c | hashLength c | hashContains c key => exact hv
  | _ => exact absurd hlooks hreads

/-- A heap that is visited by a host with stakes in some cells, besides others that it has lost. -/
structure Heap.Received (C : List CellId) (g : Heap) (lost : List CellId) (h : Heap) (σ : List CellId) :
    Prop where
  visited : Visited C g h
  sound : h.Sound (lost ++ σ)
  quiet : σ ≠ [] → g.Quiet

theorem endsLive_of_looks {request : Request CellId shape} (hlooks : request.looks = true) (h : Heap) :
    request.EndsLive setup h := by
  cases request <;> first | exact trivial | cases hlooks

theorem Heap.Received.answer {request : Request CellId shape} {r : Except Fault (Answer CellId shape)}
    (hr : Received C g lost h σ) (hasked : visiting C request) (hcells : request.cells ⊆ σ)
    (hrun : (Heap.answer setup request).run h = (r, h₁)) :
    takeError.run h₁ = (.ok none, h₁) ∧ Received C g lost h₁ (resultStakes Answer.stakes r ++ σ) := by
  have hplain := Request.isPlain_of_looks hasked.1
  have hv : Visited C g ((Heap.answer setup request).run h).2 :=
    hr.visited.answer hr.sound hasked fun c hc => List.mem_append_right lost (hcells hc)
  obtain ⟨-, leak, hs, htidy⟩ :=
    (tracks_answer setup request (released?_of_isPlain hplain) h _ hr.sound).of_run hrun
  rw [htidy (endsLive_of_looks hasked.1 h), due_of_isPlain hplain, List.nil_append] at hs
  rw [hrun] at hv
  -- nobody can ask about cells without a stake in one of them
  have hq : g.Quiet := by
    obtain ⟨c, hc⟩ := List.exists_mem_of_ne_nil _ (Request.cells_of_looks hasked.1)
    exact hr.quiet (List.ne_nil_of_mem (hcells hc))
  have hscalar (c : CellId) (x : Scalar) (y : Content) (_ : g.scalar c = .ok x)
      (hsame : TurningAt C c (.scalar x) y) : y = .scalar x := turning_scalar y hsame.turning
  refine ⟨(hv.firm.quiet hq hs hscalar).run_takeError, hv, hs.perm ?_, fun _ => hq⟩
  exact List.perm_append_comm_assoc ..

theorem Heap.Received.retain (hr : Received C g lost h σ) (hc : c ∈ σ) :
    Received C g lost ((Heap.retain c).run h).2 (c :: σ) := by
  refine ⟨hr.visited.retain c, ?_, fun _ => hr.quiet (List.ne_nil_of_mem hc)⟩
  obtain ⟨_, h', hrun, -, hs⟩ :=
    gives_retain (hr.sound.isLive (List.mem_append_right lost hc)) _ hr.sound
  rw [hrun]
  have hmiddle : (c :: (lost ++ σ)).Perm (lost ++ c :: σ) := List.perm_middle.symm
  exact hs.perm hmiddle

theorem Heap.Received.release (hr : Received C g lost h (c :: σ)) :
    Received C g lost ((Heap.release c).run h).2 σ := by
  have hs := hr.sound.perm List.perm_middle
  refine ⟨hr.visited.release hs.exact, ?_, fun _ => hr.quiet (List.cons_ne_nil c σ)⟩
  obtain ⟨_, h', hrun, -, hs'⟩ := gives_release h c _ hs
  rw [hrun]
  exact hs'

theorem regime_received : Regime (visiting C) setup fun h σ => h.Leaky σ ∧ Received C g lost h σ where
  perm := fun ⟨⟨lost, hs⟩, hr⟩ hp => ⟨⟨lost, hs.perm (hp.append_left lost)⟩, hr.visited,
    hr.sound.perm (hp.append_left _), fun hne => hr.quiet fun hnil => hne (hnil ▸ hp).nil_eq.symm⟩
  cross request hasked := fun ⟨_, hr⟩ _ hcells hrun => by
    obtain ⟨htake, hr'⟩ := hr.answer hasked hcells hrun
    exact ⟨none, _, htake, ⟨_, hr'.sound⟩, hr'⟩
  retain := fun ⟨hl, hr⟩ hc => ⟨hl.retain hc, hr.retain hc⟩
  release := fun ⟨hl, hr⟩ => ⟨hl.release, hr.release⟩

/-! ## What a visitor may ask -/

instance {walked : List CellId} : Glances (Only t (visiting walked)) where
  glances _ request hglances _ := by
    refine ⟨(Request.looks_map _ request).trans (Request.looks_of_glances hglances), fun hturns => ?_⟩
    cases request <;> first | exact nomatch (show false = true from hglances) | exact nomatch (show false = true from hturns)

instance {walked : List Handle} : Turns (Only t (visiting (cellsOf t walked))) walked where
  turns request c hturns hcells hc := by
    rintro rfl
    have hlooks : request.looks = true := by rw [Request.looks, hturns, Bool.or_true]
    refine ⟨(Request.looks_map _ request).trans hlooks, fun _ => ?_⟩
    rw [Request.cells_map, hcells, List.map_singleton]
    exact List.cons_subset.2 ⟨mem_cellsOf hc, List.nil_subset _⟩

theorem free_of_ne {asked : Asking} (hne : s ≠ t) : Free (Only t asked) s :=
  ⟨fun _ _ h => absurd h hne⟩

theorem ne_of_free (hfree : Free (Only t (visiting C)) s) : s ≠ t := by
  intro he
  exact nomatch (hfree.free .newUndef rfl he).1

/-! ## How long a bystander runs -/

/-- The stage of a session that something keeps, or nothing. -/
def Stage.upheld (kept : Prop) [Decidable kept] : Stage → Stage
  | .initialized => if kept then .initialized else .shutDown
  | stage => stage

/-- The session goes on like `x`, and a running one ends with its last handle, unless it is anchored. Nobody
who is alone gets a handle. -/
structure World.Upheld (t : SessionId) (x : Session) (alone : Bool) (w : World) (hs : List Handle) :
    Prop where
  anchored : (w.session t).anchored = x.anchored
  unheld : alone = true → cellsOf t hs = []
  stage : (w.session t).stage =
    x.stage.upheld (x.anchored = true ∨ cellsOf t hs ≠ [] ∨ alone = true)

variable {alone : Bool}

theorem World.upheld_self (w : World) (t : SessionId) (hs : List Handle) :
    w.Upheld t (w.session t) (decide (cellsOf t hs = [])) hs where
  anchored := rfl
  unheld := of_decide_eq_true
  stage := by
    have hkept : (w.session t).anchored = true ∨ cellsOf t hs ≠ [] ∨
        decide (cellsOf t hs = []) = true := by
      by_cases hnil : cellsOf t hs = []
      · exact .inr (.inr (decide_eq_true hnil))
      · exact .inr (.inl hnil)
    cases hstage : (w.session t).stage with
    | initialized => exact (if_pos hkept).symm
    | _ => rfl

theorem World.Upheld.of_eq (hw : w.Upheld t x alone hs)
    (hanchored : (w'.session t).anchored = (w.session t).anchored)
    (hstage : (w'.session t).stage = (w.session t).stage)
    (hcells : cellsOf t hs' = [] ↔ cellsOf t hs = []) : w'.Upheld t x alone hs' := by
  refine ⟨hanchored.trans hw.anchored, fun halone => hcells.2 (hw.unheld halone),
    hstage.trans (hw.stage.trans ?_)⟩
  simp only [ne_eq, hcells]

theorem World.Upheld.of_session (hw : w.Upheld t x alone hs) (hsession : w'.session t = w.session t)
    (hcells : cellsOf t hs' = cellsOf t hs) : w'.Upheld t x alone hs' :=
  hw.of_eq (by rw [hsession]) (by rw [hsession]) (by rw [hcells])

theorem steady_anchored (t : SessionId) (anchored : Bool) :
    Steady fun w => (w.session t).anchored = anchored where
  ask request _ hw := by rwa [World.ask_keeps Session.anchored fun _ _ => rfl]
  count s n hw := by
    rwa [World.session_update_keeps Session.anchored]
    exact fun _ => rfl
  shutDownUnkept {w} s hw := by
    unfold World.shutDownUnkept
    split
    · exact hw
    · rwa [World.shutDown_keeps Session.anchored (fun _ => rfl) (fun _ => rfl) fun _ _ => rfl]

theorem World.Upheld.clone {c : Handle} (hw : w.Upheld t x alone hs) (hc : c ∈ hs) :
    (w.clone c).Upheld t x alone (c :: hs) := by
  refine hw.of_eq ?_ ?_ ?_
  · exact (steady_anchored t _).receptive.clone c rfl
  · exact (World.stage_adopt 1).trans (World.stage_retain w c)
  · by_cases ht : t = c.session
    · subst ht
      rw [cellsOf_cons_self]
      exact iff_of_false (List.cons_ne_nil _ _) (List.ne_nil_of_mem (mem_cellsOf hc))
    · rw [cellsOf_cons_of_ne hs ht]

theorem Session.isKept_iff (x : Session) :
    x.isKept = true ↔ x.anchored = true ∨ x.liveHandles ≠ 0 := by
  simp only [Session.isKept, Session.anchored, Bool.or_eq_true, decide_eq_true_eq]
  exact or_right_comm

theorem World.Upheld.release {c : Handle} (hw : w.Upheld t x alone (c :: hs))
    (hstage : (w.session c.session).stage ≠ .uninitialized)
    (hcount : ((w.release c).session t).liveHandles = (cellsOf t hs).length) :
    (w.release c).Upheld t x alone hs := by
  have hanchored := (steady_anchored t _).release c hw.anchored
  by_cases ht : t = c.session
  · subst ht
    have halone : alone = false := by
      refine Bool.eq_false_iff.2 fun halone => ?_
      have hnil := hw.unheld halone
      rw [cellsOf_cons_self] at hnil
      cases hnil
    subst halone
    refine ⟨hanchored, nofun, ?_⟩
    have hend := World.stage_release (w := w) (c := c) (World.lt_of_stage_ne hstage)
    have hkept : ((w.release c).session c.session).isKept = true ↔
        x.anchored = true ∨ cellsOf c.session hs ≠ [] ∨ false = true := by
      rw [Session.isKept_iff, hanchored, hcount, ne_eq, List.length_eq_zero_iff]
      simp
    have hstage' : (w.session c.session).stage = x.stage := by
      rw [hw.stage, cellsOf_cons_self]
      cases x.stage <;> first | rfl | exact if_pos (.inr (.inl (List.cons_ne_nil _ _)))
    rw [hend, hstage']
    simp only [hkept]
    rw [hstage'] at hstage
    cases hx : x.stage with
    | uninitialized => exact absurd hx hstage
    | initialized => rfl
    | shutDown => exact ite_self _
  · have hcells := cellsOf_cons_of_ne hs ht
    refine ⟨hanchored, fun halone => hcells ▸ hw.unheld halone, ?_⟩
    rw [World.session_release_of_ne ht, hw.stage, hcells]

/-- Who asks a session about cells has handles there before and after. -/
theorem World.Upheld.exchange {request : Request Handle shape}
    {outcome : Except Fault (Answer Handle shape)} {pending : Except Fault (Option Handle)}
    (hw : w.Upheld t x alone hs) (hstage : (w.session s).stage = .initialized)
    (hheld : s = t → cellsOf t hs ≠ [])
    (hrun : (exchange s request).run w = (.ok (outcome, pending), w')) :
    w'.Upheld t x alone (exchanged s outcome pending ++ hs) := by
  have hlt : s.index < w.sessions.size := World.lt_of_stage_ne (by rw [hstage]; nofun)
  obtain ⟨e, n, hcells, rfl⟩ := exchange_refit hlt hrun
  refine hw.of_eq (World.session_update_keeps Session.anchored fun _ => rfl)
    (World.session_update_keeps Session.stage fun _ => rfl) ?_
  rw [cellsOf_append]
  by_cases ht : s = t
  · exact iff_of_false (List.append_ne_nil_of_right_ne_nil _ (hheld ht)) (hheld ht)
  · rw [cellsOf_of_ne hcells (Ne.symm ht), List.nil_append]

/-! ## Bystanders -/

/-- The session has been visited at most since it was `x` and its heap was `g`, whatever became of the
others. -/
structure Bystander (origin : World) (t : SessionId) (x : Session) (alone : Bool) (C : List CellId)
    (g : Heap) (lost : List CellId) (w : World) (hs : List Handle) : Prop where
  balanced : Balanced origin (fun u h σ => h.Leaky σ ∧ (u = t → Received C g lost h σ)) w hs
  upheld : w.Upheld t x alone hs

theorem regime_bystander (u : SessionId) : Regime (fun _ request => u = t → visiting C request)
    (origin.session u).engine.interpreter.setup
    fun h σ => h.Leaky σ ∧ (u = t → Received C g lost h σ) :=
  regime_watch regime_received u

theorem dealing_bystander :
    Dealing (Only t (visiting C)) (Bystander origin t x alone C g lost) where
  perm hI hp := by
    refine ⟨hI.balanced.perm regime_bystander hp, hI.upheld.of_eq rfl rfl ?_⟩
    exact ⟨fun hnil => (hnil ▸ cellsOf_perm t hp).eq_nil, fun hnil => (hnil ▸ cellsOf_perm t hp).nil_eq.symm⟩
  clone hI hc := ⟨hI.balanced.clone regime_bystander hc, hI.upheld.clone hc⟩
  release hI := by
    have hrelease := Balanced.release regime_bystander hI.balanced
    have hstage := hI.balanced.stage_ne (List.mem_cons_self ..)
    exact ⟨hrelease, hI.upheld.release hstage (hrelease t).count⟩
  exchange {_ _ hs s _ _ _} request hmay hstage hplain hcells hsub hI hrun := by
    refine ⟨hI.balanced.exchange regime_bystander request hmay hstage hplain hcells hsub hrun,
      hI.upheld.exchange hstage ?_ hrun⟩
    rintro rfl hnil
    have hlooks : request.looks = true := (Request.looks_map _ request).symm.trans (hmay rfl).1
    obtain ⟨c, hc⟩ := List.exists_mem_of_ne_nil _ (Request.cells_of_looks hlooks)
    have hcell := mem_cellsOf (hsub hc)
    rw [hcells c hc, hnil] at hcell
    cases hcell

/-- What is done to another session, apart from requests. -/
theorem Bystander.of_session (hI : Bystander origin t x alone C g lost w hs)
    (hbalanced : Balanced origin (fun u h σ => h.Leaky σ ∧ (u = t → Received C g lost h σ)) w' hs)
    (hsession : w'.session t = w.session t) : Bystander origin t x alone C g lost w' hs :=
  ⟨hbalanced, hI.upheld.of_session hsession rfl⟩

theorem World.session_shutDownUnkept_of_ne (ht : t ≠ s) :
    (w.shutDownUnkept s).session t = w.session t := by
  unfold World.shutDownUnkept
  split
  · rfl
  · exact World.session_shutDown_of_ne ht

theorem Bystander.start (hI : Bystander origin t x alone C g lost w hs)
    (hfree : Free (Only t (visiting C)) s) : Ends s.start w fun r w' =>
      Bystander origin t x alone C g lost w' (hostStakes (fun _ => []) r ++ hs) := by
  have hne := ne_of_free hfree
  refine dealing_bystander.ends_start_of_steps (fun hI => ?_) (fun {w hs} hstage hI => ?_)
    (fun {w hs} hI => ?_) hI
  · exact hI.of_session (hI.balanced.claim s) (World.session_update_of_ne _ _ hne)
  · have hboot := hI.balanced.ends_construct (s := s)
      (fun hboot => ⟨(discipline_leaky _).boot hboot, fun e => absurd e hne⟩) hstage
    unfold Ends at hboot ⊢
    cases hrun : s.construct.run w with
    | mk r w' =>
      rw [hrun] at hboot
      have hnone := construct_handles hrun
      dsimp only at hboot ⊢
      rw [hnone] at hboot ⊢
      exact hI.of_session hboot (session_construct_of_ne hrun hne.symm)
  · exact hI.of_session (hI.balanced.abandon s) (World.session_ended_of_ne hne.symm)

theorem affairs_bystander :
    Affairs (Only t (visiting C)) (Bystander origin t x alone C g lost) where
  toDealing := dealing_bystander
  start hfree hI := hI.start hfree
  shutDown {_ _ s} hfree hI :=
    hI.of_session (hI.balanced.shutDown s) (World.session_shutDown_of_ne (ne_of_free hfree).symm)
  disown {_ _ s} hfree hI := by
    have hne := ne_of_free hfree
    refine hI.of_session (hI.balanced.disown s) ?_
    exact (World.session_shutDownUnkept_of_ne hne.symm).trans (World.session_update_of_ne _ _ hne)
  bindNamespace {_ _ s} hfree hI :=
    hI.of_session (hI.balanced.bindNamespace s) (World.session_update_of_ne _ _ (ne_of_free hfree))
  unbindNamespace {_ _ s} hfree hI := by
    have hne := ne_of_free hfree
    refine hI.of_session (hI.balanced.unbindNamespace s) ?_
    exact (World.session_shutDownUnkept_of_ne hne.symm).trans (World.session_update_of_ne _ _ hne)

end Embedding
