import Embedding.Proofs.Heap.Trees

/-!
# Heaps that differ in places of iterations

What a heap tells of its cells does not depend on where iterations over its hashes have come to.
-/

namespace Embedding.Heap

variable {α : Type} {g h : Heap} {S : List CellId} {c : CellId} {x : Cell}

/-! ## Questions about cells -/

section
variable (ht : Turned S g h)
include ht

theorem Turned.cell (c : CellId) : h.cell c = g.cell c ∨ ∃ n p d i j,
    g.cell c = .ok ⟨n, p, .hash d i⟩ ∧ h.cell c = .ok ⟨n, p, .hash d j⟩ := by
  rcases ht.same c with he | ⟨n, p, d, i, j, hg, hh⟩
  · exact .inl (by rw [Heap.cell, Heap.cell, he])
  · exact .inr ⟨n, p, d, i, j, cell_eq_ok_iff.2 hg, cell_eq_ok_iff.2 hh⟩

theorem Turned.kind (c : CellId) : h.kind c = g.kind c := by
  rcases ht.cell c with he | ⟨n, p, d, i, j, hg, hh⟩
  · rw [Heap.kind, Heap.kind, he]
  · rw [Heap.kind, Heap.kind, hg, hh]
    rfl

theorem Turned.scalar (c : CellId) : h.scalar c = g.scalar c := by
  rcases ht.cell c with he | ⟨n, p, d, i, j, hg, hh⟩
  · rw [Heap.scalar, Heap.scalar, he]
  · rw [Heap.scalar, Heap.scalar, hg, hh]
    rfl

theorem Turned.describe (c : CellId) : h.describe c = g.describe c := by
  rcases ht.cell c with he | ⟨n, p, d, i, j, hg, hh⟩
  · rw [Heap.describe, Heap.describe, he]
  · rw [Heap.describe, Heap.describe, hg, hh]
    rfl

theorem Turned.toBytes (c : CellId) : h.toBytes c = g.toBytes c := by
  unfold Heap.toBytes
  simp only [ht.describe]
  rcases ht.cell c with he | ⟨n, p, d, i, j, hg, hh⟩
  · rw [he]
  · rw [hg, hh]
    rfl

theorem Turned.target (c : CellId) : h.target c = g.target c := by
  rcases ht.cell c with he | ⟨n, p, d, i, j, hg, hh⟩
  · rw [Heap.target, Heap.target, he]
  · rw [Heap.target, Heap.target, hg, hh]
    rfl

theorem Turned.package (c : CellId) :
    (do return (← h.cell c).package : Except Fault (Option String)) =
      (do return (← g.cell c).package) := by
  rcases ht.cell c with he | ⟨n, p, d, i, j, hg, hh⟩
  · rw [he]
  · rw [hg, hh]
    rfl

theorem Turned.className (c : CellId) : h.className c = g.className c := by
  unfold Heap.className
  rw [ht.kind, ht.target]
  cases g.kind c with
  | error e => rfl
  | ok kind =>
    cases g.target c with
    | error e => rfl
    | ok target =>
      change (if kind = .ref then (do return (← h.cell target).package) else pure none) =
        (if kind = .ref then (do return (← g.cell target).package) else pure none)
      rw [ht.package]

/-! ## Requests -/

/-- What a computation gives and leaves does not depend on the places of iterations. -/
def Turned.Blind (x : HeapM α) (g h : Heap) : Prop :=
  (x.run h).1 = (x.run g).1 ∧ ∃ S, Turned S (x.run g).2 (x.run h).2

end

theorem blind_query {f : Heap → Except Fault α} (ht : Turned S g h) (hf : f h = f g) :
    Turned.Blind (query f) g h := ⟨hf, S, ht⟩

theorem Turned.setCell (ht : Turned S g h) {n m : Nat} {p : Option String} {content content' : Content}
    (hx : g.cell? c = some ⟨n, p, content⟩) (hx' : h.cell? c = some ⟨n, p, content'⟩) :
    Turned S (g.setCell c (some ⟨m, p, content⟩)) (h.setCell c (some ⟨m, p, content'⟩)) := by
  have hlt := lt_of_cell? hx
  have hlt' := lt_of_cell? hx'
  refine ⟨?_, ht.symbols, ht.loaded, fun y => ?_, fun y hy => ?_⟩
  · simpa [Heap.setCell] using ht.size
  · rw [cell?_setCell, cell?_setCell]
    by_cases hy : c = y
    · subst hy
      rw [if_pos ⟨rfl, hlt⟩, if_pos ⟨rfl, hlt'⟩]
      have hsame := ht.same c
      rw [hx, hx'] at hsame
      rcases hsame with he | ⟨n', p', d, i, j, hg, hh⟩
      · cases he
        exact .refl _
      · cases hg
        cases hh
        exact .inr ⟨m, p, d, i, j, rfl, rfl⟩
    · rw [if_neg fun e => hy e.1, if_neg fun e => hy e.1]
      exact ht.same y
  · rw [cell?_setCell, cell?_setCell]
    by_cases hc : c = y
    · subst hc
      rw [if_pos ⟨rfl, hlt'⟩, if_pos ⟨rfl, hlt⟩]
      have hsame := ht.outside c hy
      rw [hx, hx'] at hsame
      cases hsame
      rfl
    · rw [if_neg fun e => hc e.1, if_neg fun e => hc e.1]
      exact ht.outside y hy

theorem blind_retain (ht : Turned S g h) (c : CellId) : Turned.Blind (retain c) g h := by
  cases hx : g.cell? c with
  | none =>
    have hx' : h.cell? c = none := by
      rcases ht.same c with he | ⟨n, p, d, i, j, hg, -⟩
      · rw [he, hx]
      · rw [hx] at hg
        cases hg
    have hfreed {k : Heap} (hk : k.cell? c = none) : ¬ k.isLive c := by simp [isLive, hk]
    rw [Turned.Blind, run_retain_freed (hfreed hx), run_retain_freed (hfreed hx')]
    exact ⟨rfl, S, ht⟩
  | some x =>
    obtain ⟨content', hx'⟩ : ∃ content', h.cell? c = some { x with content := content' } := by
      rcases ht.same c with he | ⟨n, p, d, i, j, hg, hh⟩
      · exact ⟨x.content, he.trans hx⟩
      · cases hx.symm.trans hg
        exact ⟨_, hh⟩
    rw [Turned.Blind, run_retain hx, run_retain hx']
    exact ⟨rfl, S, ht.setCell hx hx'⟩

theorem Turned.allocate (ht : Turned S g h) (content : Content) :
    Turned S (g.allocate content).2 (h.allocate content).2 := by
  have hid : (h.allocate content).1 = (g.allocate content).1 := congrArg CellId.mk ht.size
  refine ⟨?_, ht.symbols, ht.loaded, fun y => ?_, fun y hy => ?_⟩
  · simpa [Heap.allocate] using ht.size
  · rw [cell?_allocate, cell?_allocate, hid]
    split
    · exact .refl _
    · exact ht.same y
  · rw [cell?_allocate, cell?_allocate, hid]
    split
    · rfl
    · exact ht.outside y hy

end Embedding.Heap
