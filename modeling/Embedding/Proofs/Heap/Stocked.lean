import Embedding.Proofs.Heap.Carried
import Embedding.Proofs.Heap.Lists
import Embedding.Proofs.Heap.Variables

/-!
# Storing what is carried

A scalar carries what was assigned to it, and a container what was stored in it. What the container carried
before is carried on, since the store writes none of those cells.
-/

namespace Embedding.Heap

/-- The cell of a container, whose items carry the values by way of other cells. -/
structure Stocked (h : Heap) (vs : List Value) (a : CellId) (content : Content) (T : List CellId) :
    Prop where
  own : h.HasContent a content
  items : CarriesItems h vs content.children T
  apart : a ∉ T

variable {h h' h₁ : Heap} {v : Value} {vs : List Value} {s t : Embedding.Scalar} {a c d dst src : CellId}
  {σ T U : List CellId} {content : Content} {slot : Slot} {qualified : String}

theorem Keeps.firm (hk : h.Keeps h') : h.Firm Unchanged h' where
  size := hk.size
  symbols := hk.symbols
  cells c x' hc hx' := ⟨x', (hk.old c hc).symm.trans hx', rfl, rfl⟩

theorem HasContent.untouched (hc : h.HasContent c content) (hT : Untouched T h h') (hmem : c ∈ T)
    (hs : h'.Sound σ) (hlive : h'.isLive c) : h'.HasContent c content := by
  obtain ⟨n, p, hx, -⟩ := hc
  obtain ⟨m, hm, hpos⟩ := hT.cell hs hmem hx hlive
  exact ⟨m, p, hm, hpos⟩

theorem HasContent.shrinks (hc : h.HasContent c content) (hg : h.Shrinks h') (hs : h'.Sound σ)
    (hlive : h'.isLive c) : h'.HasContent c content := by
  obtain ⟨n, p, hx, -⟩ := hc
  obtain ⟨x', hx'⟩ := exists_cell hlive
  obtain ⟨y, hy, hcontent, -⟩ := hg.cells c x' hx'
  obtain rfl := Option.some.inj (hx.symm.trans hy)
  have hc' := hs.hasContent hx'
  rwa [hcontent] at hc'

/-! ## Assignment -/

theorem Assigned.untouched (ha : h.Assigned h' slot qualified c) (hlive : ∀ d ∈ T, h.isLive d)
    (hc : c ∉ T) : Untouched T h h' := by
  intro d hd x' hx'
  obtain ⟨y, hy⟩ := exists_cell (hlive d hd)
  obtain ⟨x, hx, hcontent, hpackage⟩ := ha.cells d x' (lt_of_cell? hy) hx'
  exact ⟨x, hx, hcontent fun e => hc (e ▸ hd), hpackage⟩

/-- The cell of a variable is none of a tree that has just been planted. -/
theorem Planted.not_mem_of_assigned (hp : h.Planted h₁ v c s T) (hs : h.Sound σ)
    (ha : h₁.Assigned h' slot qualified a) : a ∉ c :: T := by
  intro hm
  rcases ha.own with hold | ⟨-, hnew⟩
  · rw [symbol?, hp.symbols] at hold
    obtain ⟨x, hx, -⟩ := hs.named.sorts _ _ _ hold
    exact hp.ne_of_lt (lt_of_cell? hx) hm rfl
  · have hlive : h₁.isLive a := by
      rcases List.mem_cons.1 hm with rfl | hm
      · exact isLive_of_cell? hp.root
      · exact hp.encodes.live a hm
    exact not_isLive_of_size_le hnew hlive

/-- The root of a tree is assigned to a variable, which may be new. -/
theorem Planted.run_assign (hp : h.Planted h₁ v c s T) (hs : h.Sound σ) {h₂ : Heap} {τ : List CellId}
    (ha : h₁.Assigned h₂ .scalar qualified a) (hs₂ : h₂.Sound τ) (hmem : a ∈ τ) (hc : c ∈ τ) :
    ∃ h₃, (assign a c).run h₂ = (.ok (), h₃) ∧ h₃.Sound τ ∧ h₁.Assigned h₃ .scalar qualified a ∧
      h₃.scalar a = .ok s := by
  obtain ⟨y, hy, hslot⟩ := hs₂.hasSort ha.named
  obtain ⟨t, ht⟩ := scalar_of_slot? hy hslot
  have hlive : ∀ d ∈ c :: T, h₁.isLive d := fun d hd => by
    rcases List.mem_cons.1 hd with rfl | hd
    · exact isLive_of_cell? hp.root
    · exact hp.encodes.live d hd
  have huntouched := ha.untouched hlive (hp.not_mem_of_assigned hs ha)
  have hroot := hp.hasContent.untouched huntouched (.head _) hs₂ (hs₂.isLive hc)
  obtain ⟨h₃, hrun, hs₃, hf, hscalar⟩ := run_assign_scalar ht hroot.scalar hs₂ fun hs _ => hs.isLive hmem
  exact ⟨h₃, hrun, hs₃, ha.besides hf, hscalar⟩

theorem Planted.carries (hp : h.Planted h₁ v c s T) (hs : h.Sound σ)
    (ha : h₁.Assigned h' .scalar qualified a) {τ : List CellId} (hs' : h'.Sound τ)
    (hscalar : h'.scalar a = .ok s) :
    h'.HasContent a (.scalar s) ∧ ContentCarries h' v (.scalar s) T := by
  obtain ⟨x, hx, hcontent⟩ := scalar_eq_ok_iff.1 hscalar
  have hown := hs'.hasContent hx
  rw [hcontent] at hown
  refine ⟨hown, .scalar (hp.encodes.carries.untouched hs' ?_ fun d hd => ?_)⟩
  · exact ha.untouched hp.encodes.live fun hm => hp.not_mem_of_assigned hs ha (.tail _ hm)
  · exact hs'.isLive_child hx (hcontent ▸ hd)

/-! ## Storing in containers -/

theorem HasContent.run_setContent (hc : h.HasContent c content) (content' : Content) :
    ∃ h', (setContent c content').run h = (.ok (), h') ∧ h'.HasContent c content' ∧
      h.Firm (Besides c) h' := by
  obtain ⟨n, p, hx, hn⟩ := hc
  refine ⟨_, run_bind_ok (by rw [run_query, cell_ok hx]), ⟨n, p, ?_, hn⟩, ?_⟩
  · exact (cell?_setCell ..).trans (if_pos ⟨rfl, lt_of_cell? hx⟩)
  · exact firm_setCell hx content' n (fun _ _ _ _ => rfl) fun hne => absurd rfl hne

/-- What a store does to a container, together with the release of the scalar that was stored. -/
structure Storing (h : Heap) (a c : CellId) (content : Content) (content' : CellId → Content)
    (σ : List CellId) (d : CellId) (h₁ h₂ h₃ : Heap) : Prop where
  copied : (copy c).run h = (.ok d, h₁)
  own : h₁.HasContent a content
  set : (setContent a (content' d)).run h₁ = (.ok (), h₂)
  written : h.Firm (Besides a) h₂
  sound : h₂.Sound (c :: σ)
  released : (release c).run h₂ = (.ok (), h₃)
  shrinks : h₂.Shrinks h₃
  sound' : h₃.Sound σ

/-- A copy of the scalar goes into the container, and the scalar is released. -/
theorem HasContent.storing (hc : h.HasContent a content) (hscalar : h.scalar c = .ok s)
    (hs : h.Sound (c :: σ)) (ha : a ∈ σ) {content' : CellId → Content}
    (hchildren : ∀ d, (content' d).children = content.children ++ [d])
    (hslot : ∀ d, (content' d).slot? = content.slot?) :
    ∃ d h₁ h₂ h₃, Storing h a c content content' σ d h₁ h₂ h₃ ∧ h.cells.size ≤ d.index ∧
      h₃.HasContent a (content' d) ∧ h₃.HasContent d (.scalar s) := by
  obtain ⟨d, h₁, hcopy, hg, hs₁, hd, hnew⟩ := run_copy hs hscalar
  obtain ⟨n, p, hx, -⟩ := hc
  obtain ⟨m, hx₁⟩ := hg.cells a _ hx
  have hown := hs₁.hasContent hx₁
  obtain ⟨h₂, hset, hown₂, hf⟩ := hown.run_setContent (content' d)
  obtain ⟨_, _, hrun, -, hs₂⟩ := gives_setContent (content' d) [d] [] hx₁ (hslot d)
    (by rw [hchildren, List.append_nil]) (c :: σ) hs₁
  cases hset.symm.trans hrun
  obtain ⟨h₃, hrelease, hshrinks, hs₃⟩ := hs₂.run_release
  have hown₃ := hown₂.shrinks hshrinks hs₃ (hs₃.isLive ha)
  have hne : d ≠ a := fun e => Nat.not_lt.2 hnew (e ▸ lt_of_cell? hx)
  have hlive : h₃.isLive d := by
    obtain ⟨_, _, hx₃, -⟩ := hown₃
    refine hs₃.isLive_child hx₃ ?_
    rw [hchildren]
    exact List.mem_append_right _ (.head _)
  have hd₃ : h₃.scalar d = .ok s :=
    (hf.unchanged hshrinks.firm).scalar_ok hd (fun _ hsame => hsame hne) hlive
  obtain ⟨y, hy, hcontent⟩ := scalar_eq_ok_iff.1 hd₃
  refine ⟨d, h₁, h₂, h₃, ⟨hcopy, hown, hset, ?_, hs₂, hrelease, hshrinks, hs₃⟩, hnew, hown₃, ?_⟩
  · exact ((firm_refl (fun _ _ _ => rfl) h).unchanged hg.firm).besides_trans hf
  · exact hcontent ▸ hs₃.hasContent hy

theorem Stocked.add (hst : h.Stocked vs a content T) (hp : h.Planted h₁ v c s U)
    (hs₁ : h₁.Sound (c :: σ)) (ha : a ∈ σ) {content' : CellId → Content}
    (hchildren : ∀ d, (content' d).children = content.children ++ [d])
    (hslot : ∀ d, (content' d).slot? = content.slot?) :
    ∃ d h₂ h₃ h₄, Storing h₁ a c content content' σ d h₂ h₃ h₄ ∧ h.Firm (Besides a) h₄ ∧
      h₄.Stocked (vs ++ [v]) a (content' d) (T ++ d :: U) := by
  obtain ⟨n, p, hx, hn⟩ := hst.own
  have halt : a.index < h.cells.size := lt_of_cell? hx
  have hroot : h₁.scalar c = .ok s := scalar_eq_ok_iff.2 ⟨_, hp.root, rfl⟩
  have hx₁ : h₁.HasContent a content := ⟨n, p, (hp.old a halt).trans hx, hn⟩
  obtain ⟨d, h₂, h₃, h₄, hstoring, hnew, hown, hd⟩ := hx₁.storing hroot hs₁ ha hchildren hslot
  have hs₄ := hstoring.sound'
  have hf₁ : h₁.Firm (Besides a) h₄ := hstoring.written.unchanged hstoring.shrinks.firm
  have hf : h.Firm (Besides a) h₄ :=
    ((firm_refl (fun _ _ _ => rfl) h).unchanged hp.toKeeps.firm).besides_trans hf₁
  -- neither what was carried before nor the new tree goes by way of the container
  have haU : a ∉ U := fun hm => hp.ne_of_lt halt (.tail _ hm) rfl
  have hT : Untouched T h h₄ := hf.untouched hst.items.isLive fun e he _ _ hsame =>
    hsame fun heq => hst.apart (heq ▸ he)
  have hU : Untouched U h₁ h₄ := hf₁.untouched hp.encodes.live fun e he _ _ hsame =>
    hsame fun heq => haU (heq ▸ he)
  have hlive : ∀ e ∈ content.children ++ [d], h₄.isLive e := by
    obtain ⟨_, _, hx₄, -⟩ := id hown
    intro e he
    exact hs₄.isLive_child hx₄ (hchildren d ▸ he)
  have hold := hst.items.untouched hs₄ hT fun e he => hlive e (List.mem_append_left _ he)
  have hv : Carries h₄ v s U := by
    obtain ⟨_, _, hd₄, -⟩ := id hd
    exact hp.encodes.carries.untouched hs₄ hU fun e => hs₄.isLive_child hd₄
  have hone := CarriesItems.cons hd hv .nil
  rw [List.append_nil] at hone
  refine ⟨d, h₂, h₃, h₄, hstoring, hf, hown, ?_, ?_⟩
  · rw [hchildren]
    exact hold.append hone
  · have hne : a ≠ d := fun e => Nat.not_lt.2 hnew (e ▸ lt_of_cell? ((hp.old a halt).trans hx))
    rw [List.mem_append, List.mem_cons, not_or, not_or]
    exact ⟨hst.apart, hne, haU⟩

end Embedding.Heap
