import Embedding.Heap.Pending
import Embedding.Proofs.Ends

/-!
# Exact counts

A heap is exact for a list of stakes when the count of every live cell is the number of places that
hold the cell plus the number of stakes in it, and nothing that is held was freed. The primitive
changes of a heap move counts between places and stakes.
-/

namespace Embedding

/-- The slot of a symbol table that a cell with these contents can be in. It never changes. -/
def Content.slot? : Content → Option Slot
  | .scalar _ => some .scalar
  | .array _ => some .array
  | .hash .. => some .hash
  | .code .. => some .code
  | .glob _ => none

def Symbols.cells (t : Symbols) : List CellId :=
  t.scalars.values ++ t.arrays.values ++ t.hashes.values ++ t.subs.values

/-- The cells that a cell holds, none if it was freed. -/
def Cell.held (cell : Option Cell) : List CellId := cell.elim [] (·.content.children)

namespace Heap

/-- All places of a heap that hold a cell, each as the cell that it holds: the references of
scalars, the items of arrays, the entries of hashes, and the symbol tables. -/
def places (h : Heap) : List CellId := h.cells.toList.flatMap Cell.held ++ h.symbols.cells

def isLive (h : Heap) (c : CellId) : Prop := (h.cell? c).isSome

structure Exact (h : Heap) (stakes : List CellId) : Prop where
  /-- A count is the number of holders, and there is one. -/
  counts : ∀ c x, h.cell? c = some x →
    x.refcount = (h.places ++ stakes).count c ∧ 1 ≤ x.refcount
  held : ∀ c ∈ h.places ++ stakes, h.isLive c

/-! ## Places -/

theorem flatMap_set_perm {α : Type} (f : α → List CellId) : ∀ (l : List α) (i : Nat) (x y : α),
    l[i]? = some x → ((l.set i y).flatMap f ++ f x).Perm (l.flatMap f ++ f y)
  | [], _, _, _, h => by simp at h
  | a :: l, 0, x, y, h => by
    obtain rfl : a = x := by simpa using h
    refine List.perm_iff_count.2 fun d => ?_
    simp only [List.set_cons_zero, List.flatMap_cons, List.count_append]
    omega
  | a :: l, i + 1, x, y, h => by
    have := flatMap_set_perm f l i x y (by simpa using h)
    simpa [List.flatMap_cons] using this.append_left (f a)

theorem lt_of_cell? {h : Heap} {c : CellId} {x : Cell} (hc : h.cell? c = some x) :
    c.index < h.cells.size := by
  unfold cell? at hc
  rcases Nat.lt_or_ge c.index h.cells.size with hi | hi
  · exact hi
  · simp [Array.getElem?_eq_none hi] at hc

theorem mem_places_iff {h : Heap} {c : CellId} : c ∈ h.places ↔
    (∃ d x, h.cell? d = some x ∧ c ∈ x.content.children) ∨ c ∈ h.symbols.cells := by
  rw [places, List.mem_append, List.mem_flatMap]
  refine or_congr_left ⟨?_, ?_⟩
  · rintro ⟨o, ho, hc⟩
    obtain ⟨i, hi, rfl⟩ := List.mem_iff_getElem.1 ho
    cases hx : h.cells.toList[i] with
    | none => rw [hx] at hc; cases hc
    | some x =>
      refine ⟨⟨i⟩, x, ?_, by rwa [hx] at hc⟩
      rw [cell?, ← Array.getElem?_toList, List.getElem?_eq_getElem hi, hx]
      rfl
  · rintro ⟨d, x, hx, hc⟩
    have hi := lt_of_cell? hx
    have hget : h.cells[d.index] = some x := by simpa [cell?, hi] using hx
    exact ⟨some x, by rw [← hget]; simp, hc⟩

theorem places_setCell {h : Heap} {c : CellId} {x : Cell} (hc : h.cell? c = some x)
    (new : Option Cell) :
    ((h.setCell c new).places ++ x.content.children).Perm (h.places ++ Cell.held new) := by
  have hi : h.cells.toList[c.index]? = some (some x) := by
    have := lt_of_cell? hc
    simpa [cell?, this] using hc
  have hset := flatMap_set_perm Cell.held h.cells.toList c.index (some x) new hi
  have hl : (h.setCell c new).places =
      (h.cells.toList.set c.index new).flatMap Cell.held ++ h.symbols.cells := by
    simp [places, setCell]
  rw [hl]
  refine List.perm_iff_count.2 fun d => ?_
  have := hset.count_eq d
  simp only [places, List.count_append, Cell.held, Option.elim] at this ⊢
  omega

theorem places_allocate (h : Heap) (content : Content) :
    (h.allocate content).2.places.Perm (h.places ++ content.children) := by
  refine List.perm_iff_count.2 fun d => ?_
  simp only [places, allocate, Array.toList_push, List.flatMap_append, List.flatMap_cons,
    List.flatMap_nil, List.append_nil, List.count_append, Cell.held, Option.elim]
  omega

/-! ## Moves of counts -/

section
variable {h h' : Heap} {σ τ : List CellId} {c : CellId} {x : Cell}

theorem isLive_of_cell? (hc : h.cell? c = some x) : h.isLive c := by
  simp [isLive, hc]

theorem Exact.perm (he : h.Exact σ) (hp : σ.Perm τ) : h.Exact τ where
  counts d y hd := (hp.append_left h.places).count_eq d ▸ he.counts d y hd
  held d hd := he.held d ((hp.append_left h.places).mem_iff.2 hd)

theorem Exact.cell?_of_mem (he : h.Exact σ) (hc : c ∈ σ) : ∃ x, h.cell? c = some x :=
  Option.isSome_iff_exists.1 (he.held c (List.mem_append_right _ hc))

theorem Exact.transfer (he : h.Exact σ) (hp : (h.places ++ σ).Perm (h'.places ++ τ))
    (hc : ∀ c, (h'.cell? c).map Cell.refcount = (h.cell? c).map Cell.refcount) : h'.Exact τ where
  counts d y hd := by
    obtain ⟨x, hx, hxy⟩ := Option.map_eq_some_iff.1 ((hc d).symm.trans (by rw [hd]; rfl))
    rw [← hxy, ← hp.count_eq d]
    exact he.counts d x hx
  held d hd := by
    have := he.held d (hp.mem_iff.2 hd)
    unfold isLive at this ⊢
    rw [← Option.isSome_map (f := Cell.refcount), hc d, Option.isSome_map]
    exact this

/-- What the new contents of a cell hold beyond the old ones is taken from the stakes. -/
theorem Exact.setContent {content : Content} {package : Option String} (he : h.Exact σ)
    (hc : h.cell? c = some x) (hp : (content.children ++ τ).Perm (x.content.children ++ σ)) :
    (h.setCell c (some ⟨x.refcount, package, content⟩)).Exact τ := by
  refine he.transfer (List.perm_iff_count.2 fun d => ?_) fun d => ?_
  · have hplaces := (places_setCell hc (some ⟨x.refcount, package, content⟩)).count_eq d
    have hstakes := hp.count_eq d
    simp only [Cell.held, Option.elim, List.count_append] at hplaces hstakes ⊢
    omega
  · rw [cell?_setCell]
    split
    · next hd => rw [← hd.1, hc]; rfl
    · rfl

theorem Exact.recount {n : Nat} (he : h.Exact σ) (hc : h.cell? c = some x) (hn : 1 ≤ n)
    (hself : n = (h.places ++ τ).count c) (hother : ∀ d, d ≠ c → τ.count d = σ.count d) :
    (h.setCell c (some { x with refcount := n })).Exact τ := by
  have hp : ∀ d, (h.setCell c (some { x with refcount := n })).places.count d =
      h.places.count d := fun d => by
    have := (places_setCell hc (some { x with refcount := n })).count_eq d
    simp only [Cell.held, Option.elim, List.count_append] at this
    omega
  refine ⟨fun d y hd => ?_, fun d hd => ?_⟩
  · rw [cell?_setCell] at hd
    rw [List.count_append, hp, ← List.count_append]
    split at hd
    · next hcd =>
      obtain ⟨rfl, -⟩ := hcd
      obtain rfl := Option.some.inj hd
      exact ⟨hself, hn⟩
    · next hcd =>
      have hne : d ≠ c := fun e => hcd ⟨e.symm, lt_of_cell? hc⟩
      rw [List.count_append, hother d hne, ← List.count_append]
      exact he.counts d y hd
  · unfold isLive
    rw [cell?_setCell]
    split
    · rfl
    · next hcd =>
      have hne : d ≠ c := fun e => hcd ⟨e.symm, lt_of_cell? hc⟩
      refine he.held d (List.count_pos_iff.1 ?_)
      have := List.count_pos_iff.2 hd
      rwa [List.count_append, hp, hother d hne, ← List.count_append] at this

theorem Exact.retain (he : h.Exact σ) (hc : h.cell? c = some x) :
    (h.setCell c (some { x with refcount := x.refcount + 1 })).Exact (c :: σ) := by
  refine he.recount hc (Nat.le_add_left ..) ?_ fun d hd => by simp [hd.symm]
  have := (he.counts c x hc).1
  simp only [List.count_append, List.count_cons_self] at this ⊢
  omega

theorem Exact.giveBack (he : h.Exact (c :: σ)) (hc : h.cell? c = some x) (hx : 1 < x.refcount) :
    (h.setCell c (some { x with refcount := x.refcount - 1 })).Exact σ := by
  refine he.recount hc (by omega) ?_ fun d hd => by simp [hd.symm]
  have := (he.counts c x hc).1
  simp only [List.count_append, List.count_cons_self] at this ⊢
  omega

/-- The last count of a cell frees it: what it held becomes stakes. -/
theorem Exact.free (he : h.Exact (c :: σ)) (hc : h.cell? c = some x) (hx : x.refcount ≤ 1) :
    (h.setCell c none).Exact (x.content.children ++ σ) := by
  have hp : ∀ d, ((h.setCell c none).places ++ (x.content.children ++ σ)).count d =
      (h.places ++ σ).count d := fun d => by
    have := (places_setCell hc none).count_eq d
    simp only [Cell.held, Option.elim, List.count_append, List.count_nil] at this ⊢
    omega
  -- the stake that is given back was the only holder
  have hzero : (h.places ++ σ).count c = 0 := by
    have := he.counts c x hc
    simp only [List.count_append, List.count_cons_self] at this ⊢
    omega
  refine ⟨fun d y hd => ?_, fun d hd => ?_⟩
  · rw [cell?_setCell] at hd
    split at hd
    · simp at hd
    · next hcd =>
      have hne : c ≠ d := fun e => hcd ⟨e, lt_of_cell? hc⟩
      rw [hp]
      simpa [List.count_cons_of_ne hne] using he.counts d y hd
  · have hd' : 0 < (h.places ++ σ).count d := hp d ▸ List.count_pos_iff.2 hd
    have hne : c ≠ d := fun e => by rw [← e, hzero] at hd'; exact absurd hd' (Nat.lt_irrefl 0)
    unfold isLive
    rw [cell?_setCell, if_neg fun e => hne e.1]
    refine he.held d ?_
    have := List.count_pos_iff.1 hd'
    simp only [List.mem_append, List.mem_cons] at this ⊢
    exact this.imp_right .inr

theorem cell?_size_le (h : Heap) {c : CellId} (hc : h.cells.size ≤ c.index) : h.cell? c = none := by
  simp [cell?, Array.getElem?_eq_none hc]

theorem not_isLive_of_size_le {h : Heap} {c : CellId} (hc : h.cells.size ≤ c.index) :
    ¬ h.isLive c := by
  simp [isLive, cell?_size_le h hc]

/-- A new cell takes over the stakes in what it holds. -/
theorem Exact.allocate {content : Content} (he : h.Exact (content.children ++ σ)) :
    (h.allocate content).2.Exact ((h.allocate content).1 :: σ) := by
  have hp : ∀ d, ((h.allocate content).2.places ++ σ).count d =
      (h.places ++ (content.children ++ σ)).count d := fun d => by
    have := (places_allocate h content).count_eq d
    simp only [List.count_append] at this ⊢
    omega
  -- what is held is live, and the new number was not
  have hnew : (h.places ++ (content.children ++ σ)).count (h.allocate content).1 = 0 :=
    List.count_eq_zero.2 fun hm => not_isLive_of_size_le (Nat.le_refl _) (he.held _ hm)
  have hcons : ∀ d, ((h.allocate content).2.places ++ (h.allocate content).1 :: σ).count d =
      ((h.allocate content).2.places ++ σ).count d + if (h.allocate content).1 = d then 1 else 0 :=
    fun d => by simp [List.count_append, List.count_cons, Nat.add_assoc]
  refine ⟨fun d y hd => ?_, fun d hd => ?_⟩
  · rw [hcons, hp]
    rw [cell?_allocate] at hd
    split at hd
    · next e =>
      subst e
      obtain rfl := Option.some.inj hd
      rw [hnew]
      simp
    · next e =>
      rw [if_neg (Ne.symm e)]
      exact he.counts d y hd
  · unfold isLive
    rw [cell?_allocate]
    split
    · rfl
    · next e =>
      refine he.held d (List.count_pos_iff.1 ?_)
      have := List.count_pos_iff.2 hd
      rwa [hcons, hp, if_neg (Ne.symm e)] at this

end

end Heap

end Embedding
