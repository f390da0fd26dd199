import Embedding.Host.Session
import Embedding.Proofs.Host.Assigning
import Embedding.Proofs.Host.References
import Embedding.Proofs.Receivers

/-!
# Views are stored

A view that a host stores in a variable, an array or a hash is copied there as a reference to the cell
that it stands for, and no container and no sub is made for that.
-/

namespace Embedding

open Heap
open HostM (holding)

variable {origin w w' : World} {hs : List Handle} {s : SessionId} {setup : Setup} {g h h' : Heap} {v u : Value}
  {a c d t : CellId} {σ : List CellId} {n : Nat}

/-! ## Handles that end -/

theorem World.RunsOn.release (hr : w.RunsOn s setup h)
    (hstage : ((w.release ⟨s, c⟩).session s).stage = .initialized) :
    (w.release ⟨s, c⟩).RunsOn s setup ((Heap.release c).run h).2 := by
  let fewer (session : Session) : Session := { session with liveHandles := session.liveHandles - 1 }
  have hcounted : (w.update s fewer).RunsOn s setup h := by
    constructor
    · rw [World.session_update_keeps (f := fewer) Session.stage fun _ => rfl, hr.stage]
    · rw [World.session_update_keeps (f := fewer) Session.engine fun _ => rfl, hr.engine]
  change (((((w.update s fewer).giveBack ⟨s, c⟩).shutDownUnkept s).session s).stage = .initialized) at hstage
  change (((w.update s fewer).giveBack ⟨s, c⟩).shutDownUnkept s).RunsOn s setup _
  rw [World.giveBack, if_pos hcounted.stage, hcounted.ask] at hstage ⊢
  have hback := hcounted.put ((Heap.release c).run h).2 0
  unfold World.shutDownUnkept at hstage ⊢
  split at hstage
  · next hkept =>
    rw [if_pos hkept]
    exact hback
  · cases hstage.symm.trans (World.stage_shutDown hback.lt)

theorem Arrived.release {c d : Handle} (ha : Arrived origin s w (c :: hs) h) (hfresh : origin.Fresh)
    (hc : c.session = s) (hd : d ∈ hs) (hsession : d.session = s) :
    ∃ h', Arrived origin s (w.release c) hs h' ∧ h.Shrinks h' := by
  have hstage : ((w.release c).session s).stage = .initialized := by
    rw [← hsession]
    exact ha.reach.stage_release hfresh hd (hsession ▸ ha.runs.stage)
  obtain ⟨_, c⟩ := c
  subst hc
  exact ⟨_, ⟨ha.reach.release, ha.runs.release hstage⟩, release_shrinks h c⟩

/-! ## Views become references -/

theorem Arrived.isLive {c : Handle} (ha : Arrived origin s w hs h) (hfresh : origin.Fresh) (hc : c ∈ hs)
    (hsession : c.session = s) : h.isLive c.cell := by
  obtain ⟨lost, hs⟩ := ha.leaky hfresh
  exact hs.isLive (List.mem_append_right lost (hsession ▸ mem_cellsOf hc))

/-- The host has come to the world with a handle in a new cell `c`, which refers to `t`. -/
structure MadeReference (origin : World) (s : SessionId) (w : World) (hs : List Handle) (h : Heap)
    (c t : CellId) (h' : Heap) : Prop extends Arrived origin s w (⟨s, c⟩ :: hs) h' where
  firm : h.Firm Unchanged h'
  adds : h.AddsScalars h'
  refers : h'.scalar c = .ok (.ofRef t)

theorem Arrived.newReference {c : Handle} (ha : Arrived origin s w hs h) (hfresh : origin.Fresh) (hc : c ∈ hs)
    (hsession : c.session = s) : ∃ d w' h', (newReference s c).run w = (.ok ⟨s, d⟩, w') ∧
      MadeReference origin s w' hs h d c.cell h' := by
  obtain ⟨⟨lost, hs₀⟩, hq, -⟩ := ha.good hfresh hc hsession
  obtain ⟨d, h', hnew, hg, hadds, -, hd⟩ := run_newRef hs₀ (ha.isLive hfresh hc hsession)
  obtain ⟨hrun, ha'⟩ := ha.cross crossing (.newRef c) rfl
    (fun d hd => by rw [List.mem_singleton.1 hd]; exact hsession)
    (List.cons_subset.2 ⟨hc, List.nil_subset hs⟩) hnew (hq.grows hg)
  exact ⟨d, _, h', hrun, ha', hg.firm, hadds, hd⟩

theorem run_ensureOwn {c : Handle} (hc : c.session = s) (v : Value) :
    (ensureOwn s v c).run w = (.ok (), w) := by
  rw [ensureOwn, if_pos hc]
  rfl

theorem Arrived.newView (ha : Arrived origin s w hs h) (hfresh : origin.Fresh)
    (hv : v.referent? h = some t) (hsub : v.handles ⊆ hs) (hown : ∀ c ∈ v.handles, c.session = s) :
    ∃ d w' h', (newCell s v).run w = (.ok ⟨s, d⟩, w') ∧ MadeReference origin s w' hs h d t h' := by
  have hcell {c : Handle} (hc : v.handles = [c]) : c ∈ hs ∧ c.session = s :=
    ⟨hsub (hc ▸ List.mem_singleton.2 rfl), hown c (hc ▸ List.mem_singleton.2 rfl)⟩
  have hdirect {c : Handle} (hc : v.handles = [c]) : ∃ d w' h',
      (do ensureOwn s v c; Embedding.newReference s c : HostM Handle).run w = (.ok ⟨s, d⟩, w') ∧
        MadeReference origin s w' hs h d c.cell h' := by
    obtain ⟨hmem, hsession⟩ := hcell hc
    obtain ⟨d, w', h', hrun, hmade⟩ := ha.newReference hfresh hmem hsession
    exact ⟨d, w', h', (run_bind_ok (run_ensureOwn hsession v)).trans hrun, hmade⟩
  cases v with
  | array view => cases hv; exact hdirect rfl
  | hash view => cases hv; exact hdirect rfl
  | callable target =>
    cases target with
    | code cell => cases hv; exact hdirect rfl
    | method receiver name => cases hv
  | object view =>
    obtain ⟨hmem, hsession⟩ := hcell rfl
    obtain ⟨⟨lost, hs₀⟩, hq, -⟩ := ha.good hfresh hmem hsession
    obtain ⟨h₁, hderef, hg₁, hadds₁, -⟩ := run_deref hs₀ (eq_ok_of_toOption hv)
    -- the host has a handle in the target until the reference is made
    obtain ⟨hrun₁, ha₁⟩ := ha.cross crossing (.deref view.reference) rfl
      (fun d hd => by rw [List.mem_singleton.1 hd]; exact hsession)
      (List.cons_subset.2 ⟨hmem, List.nil_subset hs⟩) hderef (hq.grows hg₁)
    have ha₁ : Arrived origin s (w.put s h₁ 1) (⟨s, t⟩ :: hs) h₁ := ha₁
    obtain ⟨d, w₂, h₂, hrun₂, hrefers⟩ := ha₁.newReference hfresh (List.mem_cons_self ..) rfl
    have ha₂ : Arrived origin s w₂ (⟨s, t⟩ :: ⟨s, d⟩ :: hs) h₂ :=
      ⟨hrefers.reach.perm (.swap ..), hrefers.runs⟩
    obtain ⟨h₃, ha₃, hshrinks⟩ := ha₂.release hfresh rfl (List.mem_cons_self ..) rfl
    have hlive := ha₃.isLive hfresh (List.mem_cons_self ..) rfl
    refine ⟨d, _, h₃, ?_, ha₃, (hg₁.firm.unchanged hrefers.firm).unchanged hshrinks.firm,
      (hadds₁.trans hrefers.adds).trans hshrinks.addsScalars, hshrinks.scalar_ok hrefers.refers hlive⟩
    rw [newCell, run_bind_ok (run_ensureOwn hsession _)]
    refine (run_bind_ok hrun₁).trans ?_
    exact run_holding_ok hrun₂
  | _ => cases hv

theorem Value.handles_of_referent? (hv : v.referent? h = some t) : ∃ c, v.handles = [c] := by
  cases v with
  | array view => exact ⟨_, rfl⟩
  | hash view => exact ⟨_, rfl⟩
  | callable target => exact ⟨_, rfl⟩
  | object view => exact ⟨_, rfl⟩
  | _ => cases hv

/-! ## Items and entries -/

theorem Arrived.stored {b : Handle} {operation : String} {request : Handle → Request Handle .nothing}
    (ha : Arrived origin s w (v.handles ++ hs) h) (hfresh : origin.Fresh) (hv : v.referent? h = some t)
    (hown : ∀ c ∈ v.handles, c.session = s) (hb : b ∈ hs) (hsession : b.session = s)
    (hplain : ∀ c, (request c).isPlain = true) (hcells : ∀ c, (request c).cells = [b, c])
    (hrun : (do
        let item ← holding v.handles (newCell s v)
        holding [item] (Embedding.cross s operation (request item)) : HostM Unit).run w = (.ok (), w')) :
    ∃ d w₁ h₁ h₂ h', Arrived origin s w₁ (⟨s, d⟩ :: hs) h₁ ∧ h.AddsScalars h₁ ∧
      h₁.scalar d = .ok (.ofRef t) ∧
      (Heap.answer (origin.session s).engine.interpreter.setup ((request ⟨s, d⟩).map Handle.cell)).run h₁ =
        (.ok (), h₂) ∧ h₂.Shrinks h' ∧ Arrived origin s w' hs h' := by
  obtain ⟨c, hc⟩ := Value.handles_of_referent? hv
  rw [hc] at hrun
  obtain ⟨item, w₂, hitem, hrest⟩ := run_bind_eq_ok hrun
  obtain ⟨w₁, hnew, rfl⟩ := HostM.holding_eq_ok hitem
  obtain ⟨d, w₁', h₁, hnew', hmade⟩ := ha.newView hfresh hv (List.subset_append_left ..) hown
  obtain ⟨hitem', rfl⟩ := Prod.mk.inj (hnew.symm.trans hnew')
  obtain rfl := Except.ok.inj hitem'
  have ha₁ : Arrived origin s w₁ (c :: ⟨s, d⟩ :: hs) h₁ :=
    ⟨(hc ▸ hmade.reach).perm (.swap ..), hmade.runs⟩
  obtain ⟨h₂, ha₂, hshrinks₂⟩ := ha₁.release hfresh (hown c (hc ▸ List.mem_singleton.2 rfl))
    (List.mem_cons_of_mem _ hb) hsession
  obtain ⟨w₃, hcross, rfl⟩ := HostM.holding_eq_ok hrest
  have hsub : (request ⟨s, d⟩).cells ⊆ ⟨s, d⟩ :: hs := by
    rw [hcells]
    exact List.cons_subset.2 ⟨List.mem_cons_of_mem _ hb, List.cons_subset_cons _ (List.nil_subset _)⟩
  have hsame : ∀ c ∈ (request ⟨s, d⟩).cells, c.session = s := by
    rw [hcells]
    simp [hsession]
  obtain ⟨_, h₃, hanswer, -, ha₃⟩ := Arrived.crossed ha₂ hcross (hplain _) hsame hsub
  obtain ⟨h₄, ha₄, hshrinks₄⟩ := ha₃.release hfresh rfl hb hsession
  have hlive := ha₂.isLive hfresh (List.mem_cons_self ..) rfl
  exact ⟨d, _, h₂, h₃, h₄, ha₂, hmade.adds.trans hshrinks₂.addsScalars,
    hshrinks₂.scalar_ok hmade.refers hlive, hanswer, hshrinks₄, ha₄⟩

theorem Arrived.createGlobal {qualified : String} {target : Handle} (ha : Arrived origin s w hs h)
    (hfresh : origin.Fresh) (hrun : (createGlobal s .scalar qualified).run w = (.ok target, w')) :
    ∃ c h', target = ⟨s, c⟩ ∧ Arrived origin s w' (⟨s, c⟩ :: hs) h' ∧
      (Heap.global .scalar qualified true).run h = (.ok (some c), h') ∧
      h'.symbol? .scalar (Name.qualify qualified) = some c := by
  obtain ⟨found, w₁, hglobal, hend⟩ := run_bind_eq_ok hrun
  obtain ⟨o, h', hanswer, rfl, ha'⟩ := ha.crossed hglobal rfl nofun nofun
  obtain ⟨lost, hs⟩ := ha.leaky hfresh
  have hslot : Slot.scalar ≠ .code := nofun
  obtain ⟨c, h₁, hcreated, -, -, -, hassigned⟩ := run_global_create hs hslot qualified
  obtain ⟨ho, rfl⟩ := Prod.mk.inj (Eq.trans hanswer.symm hcreated)
  obtain rfl := Except.ok.inj ho
  cases hend
  exact ⟨c, h', rfl, ha', hcreated, hassigned.named⟩

end Embedding
