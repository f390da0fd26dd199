import Embedding.Proofs.Heap.Drafts
import Embedding.Proofs.Heap.Maps
import Embedding.Proofs.Heap.Variables
import Embedding.Proofs.Heap.Walks

/-!
# References to cells

To make a reference, to copy it into a container or a variable and to follow it takes new scalars and
nothing else: no array, no hash and no sub is made for it.
-/

namespace Embedding.Heap

variable {base h h' h₁ : Heap} {a c d t : CellId} {x y : Cell} {s u : Embedding.Scalar} {σ : List CellId}
  {items : Array CellId} {entries : Dict CellId} {cursor i : Nat} {key name : String}

/-- Every cell that is no scalar was there before, and was of the same sort. -/
def AddsScalars (h h' : Heap) : Prop := ∀ slot c, slot ≠ .scalar → h'.HasSort slot c → h.HasSort slot c

theorem AddsScalars.refl (h : Heap) : h.AddsScalars h := fun _ _ _ hc => hc

theorem AddsScalars.trans (h₀ : base.AddsScalars h) (h₂ : h.AddsScalars h') : base.AddsScalars h' :=
  fun slot c hslot hc => h₀ slot c hslot (h₂ slot c hslot hc)

/-! ## What adds scalars -/

theorem addsScalars_setCell (hc : h.cell? c = some x)
    (hslot : y.content.slot? = some .scalar ∨ y.content.slot? = x.content.slot?) :
    h.AddsScalars (h.setCell c (some y)) := by
  rintro slot d hne ⟨z, hz, hsort⟩
  rw [cell?_setCell] at hz
  split at hz
  · next hd =>
    cases hz
    rcases hslot with hscalar | hsame
    · exact absurd (Option.some.inj (hscalar.symm.trans hsort)).symm hne
    · exact ⟨x, hd.1 ▸ hc, hsame.symm.trans hsort⟩
  · exact ⟨z, hz, hsort⟩

theorem Shrinks.addsScalars (hs : h.Shrinks h') : h.AddsScalars h' := by
  rintro slot c - ⟨x', hx', hsort⟩
  obtain ⟨x, hx, hcontent, -⟩ := hs.cells c x' hx'
  exact ⟨x, hx, hcontent ▸ hsort⟩

theorem addsScalars_allocate (h : Heap) (s : Embedding.Scalar) :
    h.AddsScalars (h.allocate (.scalar s)).2 := by
  rintro slot c hne ⟨x, hx, hsort⟩
  rw [cell?_allocate] at hx
  split at hx
  · cases hx
    exact absurd (Option.some.inj hsort).symm hne
  · exact ⟨x, hx, hsort⟩

theorem addsScalars_retain (h : Heap) (c : CellId) : h.AddsScalars ((retain c).run h).2 := by
  by_cases hc : h.isLive c
  · obtain ⟨x, hx⟩ := exists_cell hc
    rw [run_retain hx]
    exact addsScalars_setCell hx (.inr rfl)
  · rw [run_retain_freed hc]
    exact .refl h

section
variable {α : Type} (base)

theorem adding {x : HeapM α} (hx : ∀ h : Heap, h.AddsScalars (x.run h).2) :
    Preserves base.AddsScalars x := fun h hbase => hbase.trans (hx h)

theorem adding_newRef (t : CellId) : Preserves base.AddsScalars (newRef t) :=
  (adding base fun h => addsScalars_retain h t).bind fun _ =>
    adding base fun h => addsScalars_allocate h _

end

theorem run_newRef (hs : h.Sound σ) (ht : h.isLive t) : ∃ r h', (newRef t).run h = (.ok r, h') ∧
    h.Grows h' ∧ h.AddsScalars h' ∧ h'.Sound (r :: σ) ∧ h'.scalar r = .ok (.ofRef t) := by
  obtain ⟨r, h', hrun, -, hs'⟩ := gives_newRef ht σ hs
  have hg := (newRef_grows h t).of_run hrun
  have hadds := adding_newRef h t h (.refl h)
  rw [hrun] at hadds
  refine ⟨r, h', hrun, hg, hadds, hs', ?_⟩
  obtain ⟨_, g, -, hnew⟩ := run_bind_eq_ok hrun
  cases hnew
  exact scalar_allocate g _

theorem Sound.isLive_target (hs : h.Sound σ) (ht : h.target c = .ok t) : h.isLive t := by
  obtain ⟨s, hscalar, href⟩ := scalar_of_target ht
  obtain ⟨x, hx, hcontent⟩ := scalar_eq_ok_iff.1 hscalar
  refine hs.isLive_child hx ?_
  rw [hcontent]
  exact Option.mem_toList.2 href

theorem run_deref (hs : h.Sound σ) (ht : h.target c = .ok t) : ∃ h', (deref c).run h = (.ok t, h') ∧
    h.Grows h' ∧ h.AddsScalars h' ∧ h'.Sound (t :: σ) := by
  obtain ⟨_, h', hretain, -, hs'⟩ := gives_retain (hs.isLive_target ht) σ hs
  have hg := retain_grows h t
  have hadds := addsScalars_retain h t
  rw [hretain] at hg hadds
  refine ⟨h', ?_, hg, hadds, hs'⟩
  rw [deref, run_bind_ok (by rw [run_query, ht]), run_bind_ok hretain]
  rfl

theorem Firm.target_ok (hf : h.Firm Unchanged h') (ht : h.target c = .ok t) (hlive : h'.isLive c) :
    h'.target c = .ok t := by
  obtain ⟨s, hscalar, href⟩ := scalar_of_target ht
  obtain ⟨x, hx, hcontent⟩ := scalar_eq_ok_iff.1 (hf.scalar_ok hscalar (fun _ hy => hy) hlive)
  rw [Heap.target, cell_ok hx]
  dsimp only [bind, Except.bind]
  rw [hcontent]
  dsimp only
  rw [href]
  rfl

/-! ## Storing scalars -/

end Embedding.Heap
