import Embedding.Host.Session
import Embedding.Proofs.Host.Arrivals
import Embedding.Proofs.Host.Sessions

/-!
# Views that come and go

A host that holds a cell takes further views of it and lets them go, and looks up variables. What abides
while the cell lives and only places of iterations change is there all the time.
-/

namespace Embedding

open Heap

/-- What is there as long as the cell lives, whatever becomes of counts and of places of iterations. -/
def Heap.Abiding (a : CellId) (P : Heap → Prop) : Prop :=
  ∀ ⦃h h' : Heap⦄ ⦃σ : List CellId⦄, P h → h.Firm Turning h' → h'.Sound σ → h'.isLive a → P h'

/-- The host has come to a world in which the session of the cell runs, and holds the cell. -/
structure Displays (P : Heap → Prop) (origin : World) (c : Handle) (w : World) (hs : List Handle)
    (h : Heap) : Prop where
  arrived : Arrived origin c.session w hs h
  mem : c ∈ hs
  shown : P h

variable {P Q : Heap → Prop} {origin w : World} {c : Handle} {hs : List Handle} {h : Heap}

theorem Heap.Sound.run_find {σ : List CellId} (hs : h.Sound σ) (slot : Slot) (name : String) :
    ∃ found h', (global slot name false).run h = (.ok found, h') ∧ h.Grows h' ∧
      h'.Sound (found.toList ++ σ) := by
  obtain ⟨found, h', hrun, -, hs'⟩ := gives_global h slot name false σ hs
  refine ⟨found, h', hrun, ?_, hs'⟩
  unfold global at hrun
  rw [run_get_bind] at hrun
  cases hsymbol : h.symbol? slot (Name.qualify name) with
  | none =>
    rw [hsymbol] at hrun
    cases hrun
    exact .refl h
  | some c =>
    rw [hsymbol] at hrun
    dsimp only at hrun
    obtain ⟨_, h₁, hretain, hreturn⟩ := run_bind_eq_ok hrun
    cases hreturn
    have hg := retain_grows h c
    rwa [hretain] at hg

namespace Displays

theorem perm (hh : Displays P origin c w hs h) {hs' : List Handle} (hp : hs.Perm hs') :
    Displays P origin c w hs' h :=
  ⟨⟨hh.arrived.reach.perm hp, hh.arrived.runs⟩, hp.subset hh.mem, hh.shown⟩

theorem after {α : Type} {x : HostM α} {given : α → List Handle} {r : α} {h' : Heap} {n : Nat}
    (hh : Displays P origin c w hs h) (hx : ∀ {I}, Trade I → Accounts I [c] x [] given)
    (hrun : x.run w = (.ok r, w.put c.session h' n)) (hshown : Q h') :
    Displays Q origin c (w.put c.session h' n) (given r ++ hs) h' := by
  have hreach := hx trade_reached w hs (List.cons_subset.mpr ⟨hh.mem, List.nil_subset hs⟩)
    hh.arrived.reach
  exact ⟨⟨hreach.of_run hrun, hh.arrived.runs.put h' n⟩, List.mem_append_right _ hh.mem, hshown⟩

variable (hfresh : origin.Fresh) (habiding : Heap.Abiding c.cell P)
include hfresh habiding

theorem viewing {α : Type} (taken : List Handle) {σ : List Handle} {x : HostM α}
    {given : α → List Handle} (hh : Displays P origin c w (taken ++ σ) h) (hmem : c ∈ σ)
    (hx : ∀ {may : Permission} {I}, Dealing may I → ∀ [Looks may], Accounts I σ x taken given) :
    Ends x w fun r w' => ∃ h', Displays P origin c w' (hostStakes given r ++ σ) h' := by
  have hends := hh.arrived.viewing hfresh hmem rfl (List.Subset.refl σ) hx
  unfold Ends at hends ⊢
  obtain ⟨h', ha, hf, hlive⟩ := hends
  obtain ⟨⟨lost, hs⟩, -, -⟩ := ha.good hfresh (List.mem_append_right _ hmem) rfl
  exact ⟨h', ha, List.mem_append_right _ hmem, habiding hh.shown hf hs hlive⟩

theorem clone (hh : Displays P origin c w hs h) : ∃ h', Displays P origin c (w.clone c) (c :: hs) h' := by
  have hends : Ends (HostM.clone [c]) w _ := viewing hfresh habiding [] hh hh.mem fun hdealing =>
    hdealing.accounts_clone (List.cons_subset.mpr ⟨hh.mem, List.nil_subset hs⟩)
  have hrun : (HostM.clone [c]).run w = (.ok (), w.clone c) := rfl
  exact hends.of_run hrun

theorem release (hh : Displays P origin c w (c :: hs) h) (hmem : c ∈ hs) :
    ∃ h', Displays P origin c (w.release c) hs h' := by
  have hends : Ends (HostM.release [c]) w _ := viewing hfresh habiding [c] hh hmem
    fun hdealing => hdealing.accounts_release [c]
  have hrun : (HostM.release [c]).run w = (.ok (), w.release c) := rfl
  exact hends.of_run hrun

theorem find (hh : Displays P origin c w hs h) (name : String) :
    Ends (c.session.getGlobal name) w fun r w' =>
      ∃ h', Displays P origin c w' (hostStakes Value.handles r ++ hs) h' := by
  obtain ⟨⟨lost, hsound⟩, hq, -⟩ := hh.arrived.good hfresh hh.mem rfl
  have hready : (c.session.getGlobal name).run w = (readGlobal c.session name).run w :=
    run_bind_ok (run_ensureReady hh.arrived.runs.stage "get_global")
  unfold Ends
  rw [hready]
  unfold readGlobal
  generalize Name.parseGlobal name = p
  obtain ⟨slot, qualified⟩ := p
  obtain ⟨found, h₁, hglobal, hg, hs₁⟩ := hsound.run_find slot qualified
  obtain ⟨hcross, ha₁⟩ := hh.arrived.cross "get_global" (.global slot qualified false) rfl
    (fun _ hc => by cases hc) (List.nil_subset hs) hglobal (hq.grows hg)
  let cell : Option Handle := found.map fun d => ⟨c.session, d⟩
  have hh₁ : Displays P origin c (w.put c.session h₁ found.toList.length) (cell.toList ++ hs) h₁ := by
    refine ⟨?_, List.mem_append_right _ hh.mem, ?_⟩
    · unfold cell
      rw [Option.toList_map]
      exact ha₁
    · have hf : h.Firm Turning h₁ := (firm_refl (fun _ _ => .inl rfl) h).unchanged hg.firm
      refine habiding hh.shown hf hs₁ (hs₁.isLive ?_)
      exact List.mem_append_right _ (List.mem_append_right _ (mem_cellsOf hh.mem))
  have hfound : (globalCell c.session "get_global" slot qualified false).run w =
      (.ok cell, w.put c.session h₁ found.toList.length) := hcross
  dsimp only
  rw [run_bind_ok hfound]
  cases slot with
  | scalar =>
    have hends := viewing (x := Value.ofOption <$> takeValue? cell) hfresh habiding _ hh₁ hh.mem
      fun hdealing => (hdealing.accounts_takeValue? cell).map handles_ofOption
    exact hends
  | array => cases found <;> exact ⟨h₁, hh₁⟩
  | hash => cases found <;> exact ⟨h₁, hh₁⟩
  | code => cases found <;> exact ⟨h₁, hh₁⟩

end Displays

end Embedding
