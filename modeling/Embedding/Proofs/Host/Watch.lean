import Embedding.Proofs.Heap.Walks
import Embedding.Proofs.Host.Starts
import Embedding.Proofs.Host.Steps
import Embedding.Proofs.PendingErrors

/-!
# Watching a session

While the host holds a handle in a session that runs, the session goes on running. If it is asked only
to read values and to make cells, then the cells that it had stay as they were.
-/

namespace Embedding

open Heap

variable {origin w w' : World} {Good : SessionId → Heap → List CellId → Prop} {hs : List Handle}
  {s t : SessionId} {setup : Setup} {base h h₁ : Heap} {K : Heap → Prop} {same : Sameness} {σ : List CellId}

/-! ## Sessions that the host has handles in -/

/-- The session runs, or the host has no handle in it. -/
def World.Attended (s : SessionId) (w : World) (hs : List Handle) : Prop :=
  (w.session s).stage = .initialized ∨ cellsOf s hs = []

theorem World.stage_retain (w : World) (h : Handle) :
    ((w.retain h).session t).stage = (w.session t).stage := by
  unfold World.retain
  split
  · exact World.stage_ask _
  · rfl

theorem World.stage_drop (w : World) (h : Handle) :
    ((w.drop h).session t).stage = (w.session t).stage := by
  unfold World.drop World.giveBack
  split
  · rw [World.stage_ask]
    exact World.stage_update fun _ => rfl
  · exact World.stage_update fun _ => rfl

/-- A session is shut down with its last handle, unless something else keeps it. -/
theorem World.stage_release {c : Handle} (hlt : c.session.index < w.sessions.size) :
    ((w.release c).session c.session).stage =
      if ((w.release c).session c.session).isKept then (w.session c.session).stage else .shutDown := by
  change (((w.drop c).shutDownUnkept c.session).session c.session).stage =
    if (((w.drop c).shutDownUnkept c.session).session c.session).isKept then _ else _
  have hsize : c.session.index < (w.drop c).sessions.size := by rwa [World.size_drop]
  unfold World.shutDownUnkept
  split
  · exact World.stage_drop w c
  · next hkept =>
    rw [World.shutDown_keeps Session.isKept (fun _ => rfl) (fun _ => rfl) fun _ _ => rfl, if_neg hkept,
      World.stage_shutDown hsize]

theorem World.session_release_of_ne {h : Handle} (ht : t ≠ h.session) :
    (w.release h).session t = w.session t := by
  change ((w.drop h).shutDownUnkept h.session).session t = _
  unfold World.shutDownUnkept
  split
  · exact World.session_drop_of_ne ht
  · rw [World.session_shutDown_of_ne ht, World.session_drop_of_ne ht]

theorem World.Attended.clone {c : Handle} (hw : w.Attended s hs) (hc : c ∈ hs) :
    (w.clone c).Attended s (c :: hs) := by
  refine hw.imp (fun hstage => ?_) fun hnil => ?_
  · rwa [World.clone, World.stage_adopt, World.stage_retain]
  · have hne : s ≠ c.session := by
      rintro rfl
      have := mem_cellsOf hc
      rw [hnil] at this
      cases this
    rwa [cellsOf_cons_of_ne _ hne]

theorem World.Attended.release {c : Handle} (hw : w.Attended s (c :: hs))
    (hcount : ((w.release c).session s).liveHandles = (cellsOf s hs).length) :
    (w.release c).Attended s hs := by
  by_cases hs' : s = c.session
  · subst hs'
    have hstage : (w.session c.session).stage = .initialized := by
      refine hw.resolve_right fun hnil => ?_
      rw [cellsOf_cons_self] at hnil
      cases hnil
    have hend := World.stage_release (w := w) (c := c) (World.lt_of_stage_ne (by rw [hstage]; nofun))
    by_cases hkept : ((w.release c).session c.session).isKept = true
    · rw [if_pos hkept, hstage] at hend
      exact .inl hend
    · -- the session was shut down for want of handles
      simp only [Session.isKept, Bool.or_eq_true, decide_eq_true_eq, not_or] at hkept
      exact .inr (List.length_eq_zero_iff.1 (hcount.symm.trans (Decidable.not_not.1 hkept.1.2)))
  · unfold World.Attended at hw ⊢
    rwa [World.session_release_of_ne hs', ← cellsOf_cons_of_ne (h := c) hs hs']

theorem cellsOf_of_ne (hsession : ∀ h ∈ hs, h.session = s) (ht : t ≠ s) : cellsOf t hs = [] := by
  rw [cellsOf, List.map_eq_nil_iff, List.filter_eq_nil_iff]
  intro h hh
  simpa [hsession h hh] using Ne.symm ht

theorem World.Attended.exchange {shape : Shape} {request : Request Handle shape}
    {outcome : Except Fault (Answer Handle shape)} {pending : Except Fault (Option Handle)}
    (hw : w.Attended s hs) (hstage : (w.session t).stage = .initialized)
    (hrun : (exchange t request).run w = (.ok (outcome, pending), w')) :
    w'.Attended s (exchanged t outcome pending ++ hs) := by
  have hlt : t.index < w.sessions.size := World.lt_of_stage_ne (by rw [hstage]; nofun)
  obtain ⟨e, n, hcells, rfl⟩ := exchange_refit hlt hrun
  have hstages : ((w.refit t e n).session s).stage = (w.session s).stage :=
    World.session_update_keeps Session.stage fun _ => rfl
  unfold World.Attended
  rw [hstages, cellsOf_append]
  by_cases hs' : s = t
  · exact .inl (hs' ▸ hstage)
  · rwa [cellsOf_of_ne hcells hs', List.nil_append]

/-- Whatever goes on in the heaps, a session goes on while the host has handles in it. -/
theorem dealing_attended (asked : SessionId → Asking) (s : SessionId)
    (hregime : ∀ t, Regime (asked t) (origin.session t).engine.interpreter.setup (Good t)) :
    Dealing (fun _ t request => asked t (request.map Handle.cell)) fun w hs =>
      Balanced origin Good w hs ∧ w.Attended s hs where
  perm h hp := by
    refine ⟨h.1.perm hregime hp, h.2.imp_right fun hnil => ?_⟩
    exact (hnil ▸ cellsOf_perm s hp).nil_eq.symm
  clone h hc := ⟨h.1.clone hregime hc, h.2.clone hc⟩
  release h := by
    have hrelease := Balanced.release hregime h.1
    exact ⟨hrelease, h.2.release (hrelease s).count⟩
  exchange request hasked hstage hplain hcells hsub h hrun :=
    ⟨h.1.exchange hregime request hasked hstage hplain hcells hsub hrun, h.2.exchange hstage hrun⟩

/-! ## Heaps that stay firm -/

/-- A request that makes a cell, or that stores into a container that has come since. -/
def Request.Fills (base : Heap) : {shape : Shape} → Request CellId shape → Prop
  | _, .arrayStore c _ _ | _, .hashStore c _ _ => base.cells.size ≤ c.index
  | _, request => request.makes = true

theorem Heap.Firm.fills {shape : Shape} {request : Request CellId shape} (hf : base.Firm same h)
    (hfills : request.Fills base) : base.Firm same ((answer setup request).run h).2 := by
  cases request with
  | arrayStore c index value =>
    exact hf.besides (preserves_arrayStore h c index value h (firm_refl (fun _ _ _ => rfl) h)) hfills
  | hashStore c key value =>
    exact hf.besides (preserves_hashStore h c key value h (firm_refl (fun _ _ _ => rfl) h)) hfills
  | newUndef | newBool _ | newInt _ | newNum _ | newBytes _ _ | newArray | newHash =>
    exact hf.unchanged (grows_allocate h _).firm
  | _ => cases hfills

theorem Heap.Firm.reads {shape : Shape} {request : Request CellId shape} (hf : base.Firm same h)
    (hs : h.Sound σ) (hreads : request.reads = true) :
    base.Firm same ((answer setup request).run h).2 :=
  hf.unchanged (answer_reads hreads hs).1.firm

theorem Heap.Firm.looks {shape : Shape} {request : Request CellId shape} (hf : base.Firm Turning h)
    (hs : h.Sound σ) (hlooks : request.looks = true) :
    base.Firm Turning ((answer setup request).run h).2 := by
  by_cases hreads : request.reads = true
  · exact hf.reads hs hreads
  have hretain (c : CellId) : Preserves (base.Firm Turning) (Heap.retain c) :=
    preserves_grows base fun h => retain_grows h c
  cases request with
  | hashRewind c => exact hf.turning (turned_hashRewind h c).firm
  | hashNext c => exact hf.turning (turning_hashNext h c)
  | arrayFetch c index => exact preserves_fetch hretain (·.items c) (·[index]?) h hf
  | hashFetch c key => exact preserves_fetch hretain (·.entries c) (·.get? key) h hf
  | refcount c | identity c | arrayLength c | hashLength c | hashContains c key => exact hf
  | _ => exact absurd hlooks hreads

/-- What keeps old cells as they were, a heap goes on through. -/
theorem regime_firm {asked : Asking} (hq : base.Quiet)
    (hscalar : ∀ c x y, same c (.scalar x) y → y = .scalar x)
    (hasked : ∀ {shape : Shape} {request : Request CellId shape} {h σ}, asked request → h.Sound σ →
      base.Firm same h → base.Firm same ((answer setup request).run h).2) :
    Regime asked setup fun h σ => h.Leaky σ ∧ base.Firm same h where
  perm := fun ⟨⟨lost, hs⟩, hf⟩ hp => ⟨⟨lost, hs.perm (hp.append_left lost)⟩, hf⟩
  cross request hrequest := by
    rintro ⟨⟨lost, hs⟩, hf⟩ hplain - hrun
    obtain ⟨-, leak, hs₁, -⟩ :=
      (tracks_answer setup request (released?_of_isPlain hplain) _ _ hs).of_run hrun
    rw [due_of_isPlain hplain] at hs₁
    have hf₁ := hasked hrequest hs hf
    rw [hrun] at hf₁
    refine ⟨none, _, (hf₁.quiet hq hs₁ fun c x y _ => hscalar c x y).run_takeError, ⟨leak ++ lost, ?_⟩, hf₁⟩
    refine hs₁.perm (List.perm_iff_count.2 fun c => ?_)
    simp only [Option.toList_none, List.nil_append, List.count_append]
    omega
  retain := fun ⟨hl, hf⟩ hc => ⟨hl.retain hc, hf.unchanged (retain_grows _ _).firm⟩
  release := fun ⟨hl, hf⟩ => ⟨hl.release, hf.unchanged (release_shrinks _ _).firm⟩

def anything : Asking := fun _ _ => True

theorem regime_evolves :
    Regime anything setup fun h σ => h.Leaky σ ∧ base.Evolves h where
  perm := fun ⟨⟨lost, hs⟩, hev⟩ hp => ⟨⟨lost, hs.perm (hp.append_left lost)⟩, hev⟩
  cross request _ := by
    rintro ⟨⟨lost, hs⟩, hev⟩ hplain - hrun
    obtain ⟨o, h₂, htake, hl₂, -⟩ := Leaky.exchange ⟨lost, hs⟩ hplain hrun
    obtain ⟨hev₁, leak, hs₁, -⟩ :=
      (tracks_answer setup request (released?_of_isPlain hplain) _ _ hs).of_run hrun
    obtain ⟨_, h', htake', hev₂, -⟩ := gives_takeError _ _ hs₁
    obtain rfl : h₂ = h' := congrArg Prod.snd (htake.symm.trans htake')
    exact ⟨o, h₂, htake, hl₂, (hev.trans hev₁).trans hev₂⟩
  retain := fun ⟨hl, hev⟩ hc => ⟨hl.retain hc, hev.trans (retain_grows _ _).evolves⟩
  release := fun ⟨hl, hev⟩ => ⟨hl.release, hev.trans (release_shrinks _ _).evolves⟩

/-- The world is balanced, the session goes on running, and its heap is as required. -/
def Watch (origin : World) (s : SessionId) (K : Heap → Prop) (w : World) (hs : List Handle) : Prop :=
  Balanced origin (fun t h σ => h.Leaky σ ∧ (t = s → K h)) w hs ∧ w.Attended s hs

/-- Permission to ask one session for certain things only. -/
def Only (s : SessionId) (asked : Asking) : Permission :=
  fun _ t request => t = s → asked (request.map Handle.cell)

/-- What one session is asked for does not matter to the others. -/
theorem regime_watch {asked : Asking} {K : Heap → List CellId → Prop}
    (hregime : Regime asked (origin.session s).engine.interpreter.setup fun h σ => h.Leaky σ ∧ K h σ)
    (t : SessionId) : Regime (fun _ request => t = s → asked request)
      (origin.session t).engine.interpreter.setup fun h σ => h.Leaky σ ∧ (t = s → K h σ) := by
  by_cases ht : t = s
  · subst ht
    exact {
      perm := fun ⟨hl, hK⟩ hp => (hregime.perm ⟨hl, hK rfl⟩ hp).imp_right fun h _ => h
      cross := fun request hrequest ⟨hl, hK⟩ hplain hcells hrun => by
        obtain ⟨o, h₂, htake, hl₂, hK₂⟩ :=
          hregime.cross request (hrequest rfl) ⟨hl, hK rfl⟩ hplain hcells hrun
        exact ⟨o, h₂, htake, hl₂, fun _ => hK₂⟩
      retain := fun ⟨hl, hK⟩ hc => (hregime.retain ⟨hl, hK rfl⟩ hc).imp_right fun h _ => h
      release := fun ⟨hl, hK⟩ => (hregime.release ⟨hl, hK rfl⟩).imp_right fun h _ => h }
  · have hleaky := discipline_leaky (origin.session t)
    exact {
      perm := fun ⟨hl, _⟩ hp => ⟨hleaky.perm hl hp, fun e => absurd e ht⟩
      cross := fun request _ ⟨hl, _⟩ hplain hcells hrun => by
        obtain ⟨o, h₂, htake, hl₂⟩ := hleaky.cross request trivial hl hplain hcells hrun
        exact ⟨o, h₂, htake, hl₂, fun e => absurd e ht⟩
      retain := fun ⟨hl, _⟩ hc => ⟨hleaky.retain hl hc, fun e => absurd e ht⟩
      release := fun ⟨hl, _⟩ => ⟨hleaky.release hl, fun e => absurd e ht⟩ }

theorem dealing_watch {asked : Asking}
    (hregime : Regime asked (origin.session s).engine.interpreter.setup fun h σ => h.Leaky σ ∧ K h) :
    Dealing (Only s asked) (Watch origin s K) :=
  dealing_attended (fun t _ request => t = s → asked request) s (regime_watch hregime)

/-! ## Where watching starts and ends -/

theorem Balanced.mono {Good' : SessionId → Heap → List CellId → Prop}
    (hI : Balanced origin Good w hs)
    (hgood : ∀ t h, (w.session t).engine.interpreter.heap = some h → Good t h (cellsOf t hs) →
      Good' t h (cellsOf t hs)) : Balanced origin Good' w hs := fun t =>
  { hI t with
    running := fun hstage => by
      obtain ⟨h, hheap, hg⟩ := (hI t).running hstage
      exact ⟨h, hheap, hgood t h hheap hg⟩ }

theorem Reached.watch (hreach : Reached origin w hs) (hfresh : origin.Fresh)
    (hr : w.RunsOn s setup base) (hK : K base) : Watch origin s K w hs := by
  refine ⟨(hreach.leaky hfresh).mono fun t h hheap hl => ⟨hl, ?_⟩, .inl hr.stage⟩
  rintro rfl
  rw [hr.engine] at hheap
  cases hheap
  exact hK

theorem Watch.keptOn (hw : Watch origin s K w hs) {c : Handle} (hc : c ∈ hs)
    (hsession : c.session = s) : ∃ h, w.KeptOn s (origin.session s).engine.interpreter.setup h ∧
      K h ∧ h.Leaky (cellsOf s hs) := by
  subst hsession
  have hcell := mem_cellsOf hc
  have hstage := hw.2.resolve_right fun hnil => by
    rw [hnil] at hcell
    cases hcell
  obtain ⟨h, hr, hl, hK⟩ := hw.1.runsOn hstage
  refine ⟨h, ⟨hr, ?_⟩, hK rfl, hl⟩
  have hcount := (hw.1 c.session).count
  have hne : (w.session c.session).liveHandles ≠ 0 := by
    rw [hcount]
    exact fun h => by
      rw [List.length_eq_zero_iff.1 h] at hcell
      cases hcell
  simp [Session.isKept, hne]

/-! ## What may be asked meanwhile -/

def reading : Asking := fun _ request => request.reads = true

def looking : Asking := fun _ request => request.looks = true

/-- Besides, cells may be made, and containers that have come since may be filled. -/
def Asking.filling (asked : Asking) (base : Heap) : Asking :=
  fun _ request => asked request ∨ request.Fills base

theorem Request.reads_map {κ ι : Type} (f : κ → ι) {shape : Shape} (request : Request κ shape) :
    (request.map f).reads = request.reads := by cases request <;> rfl

theorem Request.looks_map {κ ι : Type} (f : κ → ι) {shape : Shape} (request : Request κ shape) :
    (request.map f).looks = request.looks := by cases request <;> rfl

theorem Request.makes_map {κ ι : Type} (f : κ → ι) {shape : Shape} (request : Request κ shape) :
    (request.map f).makes = request.makes := by cases request <;> rfl

theorem Request.fills_of_makes {shape : Shape} {request : Request CellId shape}
    (hmakes : request.makes = true) : request.Fills base := by
  cases request <;> first | exact hmakes | cases hmakes

instance : Looks (Only s anything) := ⟨fun _ _ _ _ => trivial⟩

instance : Free (Only s anything) s := ⟨fun _ _ _ => trivial⟩

instance : Reads (Only s (reading.filling base)) where
  reads _ request hreads := fun _ => .inl ((Request.reads_map _ request).trans hreads)

instance : Looks (Only s (looking.filling base)) where
  looks _ request hlooks := fun _ => .inl ((Request.looks_map _ request).trans hlooks)

theorem Watch.made {request : Request Handle .cell} {content : Content} {c : Handle}
    {operation : String} (hw : Watch origin s (base.Firm same) w hs)
    (hanswer : ∀ setup, Heap.answer setup (request.map Handle.cell) = alloc content)
    (hrun : (cross s operation request).run w = (.ok c, w')) : base.cells.size ≤ c.cell.index := by
  have hexchange := crossWith_ok hrun
  obtain ⟨h, hr, -, hf⟩ := hw.1.runsOn (crossWith_initialized hrun)
  cases htake : takeError.run (h.allocate content).2 with
  | mk pending h₂ =>
    rw [hr.run_exchange (by rw [hanswer]; rfl) htake] at hexchange
    have hsame := congrArg (fun p => p.1.toOption.bind fun r => r.1.toOption) hexchange
    cases hsame
    exact (hf rfl).size

instance {asked : Asking} :
    Makes (Only s (asked.filling base)) s (Watch origin s (base.Firm same)) where
  makes request hmakes _ _ :=
    .inr (Request.fills_of_makes ((Request.makes_map _ request).trans hmakes))
  arrayStore hw hrun _ _ _ := .inr (hw.made (fun _ => rfl) hrun)
  hashStore hw hrun _ _ _ := .inr (hw.made (fun _ => rfl) hrun)

end Embedding
