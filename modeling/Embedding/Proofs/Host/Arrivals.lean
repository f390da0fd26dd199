import Embedding.Proofs.Heap.Contents
import Embedding.Proofs.Heap.Walks
import Embedding.Proofs.Host.Twins
import Embedding.Proofs.Host.Watch

/-!
# Worlds that a host has come to

While the host holds a handle in a running session, no error is pending there and no hash has a key
twice. The crossings to it end as its heap says, and what only reads values and makes cells leaves
the contents of its cells alone.
-/

namespace Embedding

open Heap

variable {α : Type} {origin w : World} {Good : Heap → List CellId → Prop} {hs b taken σ : List Handle}
  {s : SessionId} {h h₁ : Heap} {shape : Shape} {request : Request Handle shape}

/-! ## Disciplines -/

theorem Regime.and_preserved {asked : Asking} {setup : Setup} {K : Heap → Prop}
    (hregime : Regime asked setup Good)
    (hK : ∀ {shape : Shape} (request : Request CellId shape), asked request →
      Preserves K (answer setup request))
    (htake : Preserves K takeError) (hretain : ∀ c, Preserves K (Heap.retain c))
    (hrelease : ∀ c, Preserves K (Heap.release c)) : Regime asked setup fun h σ => Good h σ ∧ K h where
  perm h hp := ⟨hregime.perm h.1 hp, h.2⟩
  cross {h h₁ σ shape r} request hasked hgood hplain hcells hrun := by
    obtain ⟨o, h₂, htakes, hgood₂⟩ := hregime.cross request hasked hgood.1 hplain hcells hrun
    have h₁K := hK request hasked h hgood.2
    rw [hrun] at h₁K
    have h₂K := htake h₁ h₁K
    rw [htakes] at h₂K
    exact ⟨o, h₂, htakes, hgood₂, h₂K⟩
  retain {h σ c} hgood hc := ⟨hregime.retain hgood.1 hc, hretain c h hgood.2⟩
  release {h σ c} hgood := ⟨hregime.release hgood.1, hrelease c h hgood.2⟩

theorem Discipline.and_preserved {origin : Session} {K : Heap → Prop} (hdisc : Discipline origin Good)
    (hK : ∀ {shape : Shape} (request : Request CellId shape),
      Preserves K (answer origin.engine.interpreter.setup request))
    (hboot : Preserves K (Heap.boot origin.engine.interpreter.setup origin.config.interpreterArgs))
    (hinitial : K .initial) : Discipline origin fun h σ => Good h σ ∧ K h where
  toRegime := hdisc.toRegime.and_preserved (fun request _ => hK request) (hK .takeError)
    (fun c => hK (.retain c)) fun c => hK (.release c)
  boot {h} hrun := by
    refine ⟨hdisc.boot hrun, ?_⟩
    have := hboot .initial hinitial
    rwa [hrun] at this

/-- An error is pending at most until the host has its first handle. -/
theorem discipline_handled (origin : Session) :
    Discipline origin fun h σ => h.Leaky σ ∧ (σ ≠ [] → h.Quiet) where
  perm := fun ⟨hl, hq⟩ hp => ⟨(discipline_leaky origin).perm hl hp, fun hne =>
    hq fun hnil => hne (hnil ▸ hp).nil_eq.symm⟩
  boot hboot := ⟨(discipline_leaky origin).boot hboot, fun hne => absurd rfl hne⟩
  cross request _ hgood hplain _ hrun := by
    obtain ⟨o, h₂, htake, hl₂, hq₂⟩ := hgood.1.exchange hplain hrun
    exact ⟨o, h₂, htake, hl₂, fun _ => hq₂⟩
  retain := fun ⟨hl, hq⟩ hc =>
    ⟨hl.retain hc, fun _ => (hq (List.ne_nil_of_mem hc)).grows (retain_grows _ _)⟩
  release {h σ c} := fun ⟨hl, hq⟩ => by
    obtain ⟨lost, hs⟩ := hl.release
    exact ⟨⟨lost, hs⟩, fun _ => (hq (List.cons_ne_nil c σ)).shrinks (release_shrinks h c) hs⟩

theorem Reached.handled (hreach : Reached origin w hs) (hfresh : origin.Fresh) :
    Balanced origin (fun _ h σ => (h.Leaky σ ∧ (σ ≠ [] → h.Quiet)) ∧ h.Keyed) w hs := by
  refine hreach.holds (primitives_balanced (fun s => ?_) ?_) hfresh.balanced
  · exact (discipline_handled _).and_preserved (fun request => contents_answer
      (Setup.allBodies_keyed _) request) (contents_boot (Setup.allBodies_keyed _) _) contents_initial
  · exact fun _ _ c σ hgood => ⟨⟨hgood.1.1.lose, fun _ => hgood.1.2 (List.cons_ne_nil c σ)⟩, hgood.2⟩

/-! ## Arrivals -/

/-- The host has come to the world with the handles, and the session runs there on the heap. -/
structure Arrived (origin : World) (s : SessionId) (w : World) (hs : List Handle) (h : Heap) :
    Prop where
  reach : Reached origin w hs
  runs : w.RunsOn s (origin.session s).engine.interpreter.setup h

theorem Arrived.good (ha : Arrived origin s w hs h) (hfresh : origin.Fresh) {c : Handle} (hc : c ∈ hs)
    (hsession : c.session = s) : h.Leaky (cellsOf s hs) ∧ h.Quiet ∧ h.Keyed := by
  subst hsession
  obtain ⟨h', hr, hgood⟩ := (ha.reach.handled hfresh).runsOn ha.runs.stage
  obtain rfl : h = h' := by
    have := ha.runs.engine.symm.trans hr.engine
    cases this
    rfl
  exact ⟨hgood.1.1, hgood.1.2 (List.ne_nil_of_mem (mem_cellsOf hc)), hgood.2⟩

theorem Arrived.cross (ha : Arrived origin s w hs h) (operation : String)
    (request : Request Handle shape) (hplain : request.isPlain = true) (hcells : ∀ h ∈ request.cells, h.session = s)
    (hsub : request.cells ⊆ hs) {answer : Answer CellId shape}
    (hanswer : (Heap.answer (origin.session s).engine.interpreter.setup (request.map Handle.cell)).run h =
      (.ok answer, h₁)) (hq : h₁.Quiet) :
    (Embedding.cross s operation request).run w =
        (.ok (answer.map fun c => ⟨s, c⟩), w.put s h₁ answer.stakes.length) ∧
      Arrived origin s (w.put s h₁ answer.stakes.length)
        (answer.stakes.map (fun c => ⟨s, c⟩) ++ hs) h₁ := by
  have hstakes : (HostM.stakesOf (handled s (.ok answer))) = answer.stakes.map fun c => ⟨s, c⟩ :=
    Answer.stakes_map ..
  have hlength : (HostM.stakesOf (handled s (.ok answer))).length = answer.stakes.length := by
    rw [hstakes, List.length_map]
  refine ⟨?_, ?_, ha.runs.put h₁ _⟩
  · rw [Embedding.cross, ha.runs.run_crossWith_quiet hanswer hq (deathless_ok answer), hlength]
    rfl
  · have hexchange := ha.runs.run_exchange hanswer hq.run_takeError
    rw [exchanged_answer, List.length_map] at hexchange
    have hreach := ha.reach.exchange request ha.runs.stage hplain hcells hsub hexchange
    rwa [exchanged_answer] at hreach

theorem Arrived.cross_error (ha : Arrived origin s w hs h) (operation : String)
    (request : Request Handle shape) {fault : Fault}
    (hanswer : (Heap.answer (origin.session s).engine.interpreter.setup (request.map Handle.cell)).run h =
      (.error fault, h)) (hq : h.Quiet) (hdeathless : Heap.Deathless (.error fault : Except Fault (Answer CellId shape))) :
    (Embedding.cross s operation request).run w = (.error (fault.toHostError operation), w) := by
  have hput : w.put s h (HostM.stakesOf (handled s (.error fault : Except Fault (Answer CellId shape)))).length =
      w := ha.runs.put_self
  rw [Embedding.cross, ha.runs.run_crossWith_quiet hanswer hq hdeathless, hput]
  rfl

/-- What deals in permitted requests, while the host keeps a handle in the session, leads to a world in
which the session runs on a heap as it is required. -/
theorem Arrived.deal {asked : Asking} {K : Heap → Prop} {x : HostM α} {given : α → List Handle}
    (ha : Arrived origin s w (taken ++ σ) h) (hfresh : origin.Fresh) {c : Handle} (hc : c ∈ σ)
    (hsession : c.session = s) (hK : K h)
    (hregime : Regime asked (origin.session s).engine.interpreter.setup fun h σ => h.Leaky σ ∧ K h)
    (hb : b ⊆ σ) (hwatch : Dealing (Only s asked) (Watch origin s K) →
      Accounts (Watch origin s K) b x taken given)
    (hx : ∀ {I}, Trade I → Accounts I b x taken given) :
    Ends x w fun r w' => ∃ h', Arrived origin s w' (hostStakes given r ++ σ) h' ∧ K h' ∧
      h'.isLive c.cell := by
  have hreach := hx trade_reached w σ hb ha.reach
  have hwatch' := hwatch (dealing_watch hregime) w σ hb (ha.reach.watch hfresh ha.runs hK)
  unfold Ends at hreach hwatch' ⊢
  have hc' : c ∈ hostStakes given (x.run w).1 ++ σ := List.mem_append_right _ hc
  obtain ⟨h', hkept, hK', lost, hs⟩ := hwatch'.keptOn hc' hsession
  refine ⟨h', ⟨hreach, hkept.toRunsOn⟩, hK', hs.isLive (List.mem_append_right lost ?_)⟩
  exact hsession ▸ mem_cellsOf hc'

/-- What reads values, makes cells, and clones and releases handles leaves the contents alone of all
cells that stay live. -/
theorem Arrived.copying {x : HostM α} {given : α → List Handle}
    (ha : Arrived origin s w (taken ++ σ) h) (hfresh : origin.Fresh) {c : Handle} (hc : c ∈ σ)
    (hsession : c.session = s) (hb : b ⊆ σ)
    (hx : ∀ {may : Permission} {I}, Dealing may I → ∀ [Reads may] [Makes may s I],
      Accounts I b x taken given) :
    Ends x w fun r w' => ∃ h', Arrived origin s w' (hostStakes given r ++ σ) h' ∧
      h.Firm Unchanged h' ∧ h'.isLive c.cell := by
  obtain ⟨-, hq, -⟩ := ha.good hfresh (List.mem_append_right taken hc) hsession
  have hregime : Regime (reading.filling h) (origin.session s).engine.interpreter.setup
      fun h' σ => h'.Leaky σ ∧ h.Firm Unchanged h' :=
    regime_firm hq (fun _ _ _ => id) fun hasked hs hf => hasked.elim (hf.reads hs) hf.fills
  have hrefl : h.Firm Unchanged h := firm_refl (show ∀ c x, Unchanged c x x from fun _ _ => rfl) h
  exact ha.deal hfresh hc hsession hrefl hregime hb (fun hdealing => hx hdealing) fun htrade => hx htrade

/-- What looks at cells leaves their contents alone, but for places of iterations. -/
theorem Arrived.viewing {x : HostM α} {given : α → List Handle}
    (ha : Arrived origin s w (taken ++ σ) h) (hfresh : origin.Fresh) {c : Handle} (hc : c ∈ σ)
    (hsession : c.session = s) (hb : b ⊆ σ)
    (hx : ∀ {may : Permission} {I}, Dealing may I → ∀ [Looks may], Accounts I b x taken given) :
    Ends x w fun r w' => ∃ h', Arrived origin s w' (hostStakes given r ++ σ) h' ∧
      h.Firm Turning h' ∧ h'.isLive c.cell := by
  obtain ⟨-, hq, -⟩ := ha.good hfresh (List.mem_append_right taken hc) hsession
  have hregime : Regime (looking.filling h) (origin.session s).engine.interpreter.setup
      fun h' σ => h'.Leaky σ ∧ h.Firm Turning h' :=
    regime_firm hq (fun _ _ => turning_scalar) fun hasked hs hf => hasked.elim (hf.looks hs) hf.fills
  have hrefl : h.Firm Turning h := firm_refl (fun _ _ => .inl rfl) h
  exact ha.deal hfresh hc hsession hrefl hregime hb (fun hdealing => hx hdealing) fun htrade => hx htrade

/-! ## Anchored arrivals -/

/-- The host has come to the world, and the session runs there and does not depend on handles for
that. -/
structure Anchored (origin : World) (s : SessionId) (w : World) (hs : List Handle) (h : Heap) : Prop
    extends Arrived origin s w hs h where
  anchored : (w.session s).anchored = true

theorem Anchored.perm {hs' : List Handle} (ha : Anchored origin s w hs h) (hp : hs.Perm hs') :
    Anchored origin s w hs' h := ⟨⟨ha.reach.perm hp, ha.runs⟩, ha.anchored⟩

theorem Anchored.runsAnchored (ha : Anchored origin s w hs h) : w.RunsAnchored s :=
  ⟨ha.runs.stage, ha.anchored⟩

theorem Arrived.unique (ha : Arrived origin s w hs h) {setup : Setup} (hr : w.RunsOn s setup h₁) :
    h₁ = h := by
  have := ha.runs.engine.symm.trans hr.engine
  cases this
  rfl

theorem Arrived.keptOn (ha : Arrived origin s w hs h) (hfresh : origin.Fresh)
    {c : Handle} (hc : c ∈ hs) (hsession : c.session = s) :
    w.KeptOn s (origin.session s).engine.interpreter.setup h := by
  obtain ⟨h', hk, -, -⟩ :=
    (ha.reach.watch hfresh (K := fun _ => True) ha.runs trivial).keptOn hc hsession
  exact ha.unique hk.toRunsOn ▸ hk

theorem Arrived.leaky (ha : Arrived origin s w hs h) (hfresh : origin.Fresh) :
    h.Leaky (cellsOf s hs) := by
  obtain ⟨h₁, hr, hl⟩ := (ha.reach.leaky hfresh).runsOn ha.runs.stage
  exact ha.unique hr ▸ hl

theorem World.anchored_put (w : World) (s : SessionId) (h : Heap) (n : Nat) :
    ((w.put s h n).session s).anchored = (w.session s).anchored := by
  unfold World.put
  exact World.session_update_keeps Session.anchored fun _ => rfl

theorem Anchored.put (ha : Anchored origin s w hs h) {hs' : List Handle} {n : Nat}
    (ha' : Arrived origin s (w.put s h₁ n) hs' h₁) : Anchored origin s (w.put s h₁ n) hs' h₁ :=
  ⟨ha', (World.anchored_put w s h₁ n).trans ha.anchored⟩

/-- What deals in permitted requests leads to a world in which the session runs on a heap as it is
required. -/
theorem Anchored.deal {asked : Asking} {K : Heap → Prop} {x : HostM α} {given : α → List Handle}
    (ha : Anchored origin s w (taken ++ σ) h) (hfresh : origin.Fresh) (hK : K h)
    (hregime : Regime asked (origin.session s).engine.interpreter.setup fun h σ => h.Leaky σ ∧ K h)
    (hb : b ⊆ σ) (hwatch : Dealing (Only s asked) (Watch origin s K) →
      Accounts (Watch origin s K) b x taken given)
    (hx : ∀ {I}, Trade I → Accounts I b x taken given) :
    Ends x w fun r w' => ∃ h', Anchored origin s w' (hostStakes given r ++ σ) h' ∧ K h' := by
  have hreach := hx trade_reached w σ hb ha.reach
  have hruns := hx (steady_runsAnchored s).trade w σ hb ha.runsAnchored
  have hK' := hwatch (dealing_watch hregime) w σ hb (ha.reach.watch hfresh ha.runs hK)
  unfold Ends at hreach hruns hK' ⊢
  obtain ⟨h', hr, -, hK'⟩ := hK'.1.runsOn hruns.1
  exact ⟨h', ⟨⟨hreach, hr⟩, hruns.2⟩, hK' rfl⟩

/-- What looks at cells and makes new ones leaves the contents alone of all that stay live, but for
places of iterations. -/
theorem Anchored.browsing {x : HostM α} {given : α → List Handle}
    (ha : Anchored origin s w (taken ++ σ) h) (hfresh : origin.Fresh) (hq : h.Quiet) (hb : b ⊆ σ)
    (hx : ∀ {may : Permission} {I}, Dealing may I → ∀ [Looks may] [Makes may s I],
      Accounts I b x taken given) :
    Ends x w fun r w' => ∃ h', Anchored origin s w' (hostStakes given r ++ σ) h' ∧
      h.Firm Turning h' ∧ h'.Quiet := by
  have hrefl : h.Firm Turning h := firm_refl (fun _ _ => .inl rfl) h
  have hregime : Regime (looking.filling h) (origin.session s).engine.interpreter.setup
      fun h' σ => h'.Leaky σ ∧ h.Firm Turning h' :=
    regime_firm hq (fun _ _ => turning_scalar) fun hasked hs hf =>
      hasked.elim (hf.looks hs) hf.fills
  have hends := ha.deal hfresh hrefl hregime hb (fun hdealing => hx hdealing) fun htrade => hx htrade
  unfold Ends at hends ⊢
  obtain ⟨h', ha', hf⟩ := hends
  obtain ⟨lost, hs⟩ := ha'.leaky hfresh
  exact ⟨h', ha', hf, hf.quiet hq hs fun _ _ y _ => turning_scalar y⟩

/-- Whatever is done to the session, cells keep their sorts and variables their cells. -/
theorem Anchored.acting {x : HostM α} {given : α → List Handle}
    (ha : Anchored origin s w (taken ++ σ) h) (hfresh : origin.Fresh) (hb : b ⊆ σ)
    (hx : ∀ {may : Permission} {I}, Dealing may I → ∀ [Looks may] [Free may s],
      Accounts I b x taken given) :
    Ends x w fun r w' => ∃ h', Anchored origin s w' (hostStakes given r ++ σ) h' ∧ h.Evolves h' :=
  ha.deal hfresh (.refl h) regime_evolves hb (fun hdealing => hx hdealing) fun htrade => hx htrade

end Embedding
