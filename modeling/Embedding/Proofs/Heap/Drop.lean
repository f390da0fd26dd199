import Embedding.Proofs.Heap.Exact

/-!
# Freeing cells

The last count of a cell frees it and gives back what it held, and so on down. While this goes on,
what is still to be given back counts as stakes; every level frees a cell, so the depth suffices.
-/

namespace Embedding.Heap

variable {h h' h'' : Heap} {σ : List CellId} {c : CellId} {x : Cell}

/-- `h'` has the cells of `h` with other counts, as far as they are still live. -/
structure Shrinks (h h' : Heap) : Prop where
  size : h'.cells.size = h.cells.size
  symbols : h'.symbols = h.symbols
  loaded : h'.loaded = h.loaded
  cells : ∀ c x', h'.cell? c = some x' →
    ∃ x, h.cell? c = some x ∧ x'.content = x.content ∧ x'.package = x.package

theorem Shrinks.refl (h : Heap) : h.Shrinks h := ⟨rfl, rfl, rfl, fun _ x hx => ⟨x, hx, rfl, rfl⟩⟩

theorem Shrinks.trans (h₁ : h.Shrinks h') (h₂ : h'.Shrinks h'') : h.Shrinks h'' where
  size := h₂.size.trans h₁.size
  symbols := h₂.symbols.trans h₁.symbols
  loaded := h₂.loaded.trans h₁.loaded
  cells c x'' hx'' := by
    obtain ⟨x', hx', hc', hp'⟩ := h₂.cells c x'' hx''
    obtain ⟨x, hx, hc, hp⟩ := h₁.cells c x' hx'
    exact ⟨x, hx, hc'.trans hc, hp'.trans hp⟩

theorem shrinks_recount (hc : h.cell? c = some x) (n : Nat) :
    h.Shrinks (h.setCell c (some { x with refcount := n })) where
  size := by simp [setCell]
  symbols := rfl
  loaded := rfl
  cells d y hd := by
    rw [cell?_setCell] at hd
    split at hd
    · next e => exact ⟨x, e.1 ▸ hc, by cases hd; exact ⟨rfl, rfl⟩⟩
    · exact ⟨y, hd, rfl, rfl⟩

theorem shrinks_free (h : Heap) (c : CellId) : h.Shrinks (h.setCell c none) where
  size := by simp [setCell]
  symbols := rfl
  loaded := rfl
  cells d y hd := by
    rw [cell?_setCell] at hd
    split at hd
    · cases hd
    · exact ⟨y, hd, rfl, rfl⟩

theorem drop_freed (depth : Nat) (hc : h.cell? c = none) : h.drop depth c = h := by
  cases depth with
  | zero => rfl
  | succ depth => simp [drop, hc]

theorem drop_last {depth : Nat} (hc : h.cell? c = some x) (hx : x.refcount ≤ 1) :
    h.drop (depth + 1) c = x.content.children.foldl (drop depth) (h.setCell c none) := by
  simp [drop, hc, hx]

theorem drop_other {depth : Nat} (hc : h.cell? c = some x) (hx : 1 < x.refcount) :
    h.drop (depth + 1) c = h.setCell c (some { x with refcount := x.refcount - 1 }) := by
  simp [drop, hc, Nat.not_le.2 hx]

/-- What a cascade keeps: a relation that every count taken and every cell freed keeps. -/
theorem shrinks_drop : ∀ (depth : Nat) (h : Heap) (c : CellId), h.Shrinks (h.drop depth c)
  | 0, h, _ => .refl h
  | depth + 1, h, c => by
    have hall : ∀ (cs : List CellId) (h : Heap), h.Shrinks (cs.foldl (drop depth) h) := by
      intro cs
      induction cs with
      | nil => exact fun h => .refl h
      | cons d cs ih => exact fun h => (shrinks_drop depth h d).trans (ih _)
    cases hc : h.cell? c with
    | none => rw [drop_freed _ hc]; exact .refl h
    | some x =>
      rcases Nat.lt_or_ge 1 x.refcount with hx | hx
      · rw [drop_other hc hx]; exact shrinks_recount hc _
      · rw [drop_last hc hx]; exact (shrinks_free h c).trans (hall _ _)

/-! ## The number of live cells -/

theorem liveCells_eq (h : Heap) : h.liveCells = h.cells.toList.countP (·.isSome) := by
  have hfold : ∀ (l : List (Option Cell)) (n : Nat),
      l.foldl (fun n cell => if cell.isSome then n + 1 else n) n = n + l.countP (·.isSome) := by
    intro l
    induction l with
    | nil => simp
    | cons o l ih =>
      intro n
      rw [List.foldl_cons, ih, List.countP_cons]
      cases o <;> simp [Nat.add_assoc, Nat.add_comm]
  rw [liveCells, ← Array.foldl_toList, hfold, Nat.zero_add]

theorem liveCells_le_size (h : Heap) : h.liveCells ≤ h.cells.size := by
  rw [liveCells_eq]
  simpa using List.countP_le_length (p := fun o : Option Cell => o.isSome) (l := h.cells.toList)

theorem liveCells_setCell (hc : h.cell? c = some x) (new : Option Cell) :
    (h.setCell c new).liveCells + 1 = h.liveCells + new.toList.length := by
  have hi := lt_of_cell? hc
  have hget : h.cells[c.index] = some x := by simpa [cell?, hi] using hc
  have hpos : 0 < h.cells.toList.countP (·.isSome) :=
    List.countP_pos_iff.2 ⟨some x, by rw [← hget]; simp, rfl⟩
  rw [liveCells_eq, liveCells_eq]
  simp only [setCell, Array.toList_setIfInBounds]
  rw [List.countP_set (by simpa using hi)]
  simp only [Array.getElem_toList, hget, Option.isSome_some, if_true]
  cases new with
  | none =>
    simp only [Option.isSome_none, Bool.false_eq_true, if_false, Option.toList_none, List.length_nil]
    omega
  | some y =>
    simp only [Option.isSome_some, if_true, Option.toList_some, List.length_singleton]
    omega

theorem liveCells_free (hc : h.cell? c = some x) :
    (h.setCell c none).liveCells + 1 = h.liveCells := liveCells_setCell hc none

theorem liveCells_recount (hc : h.cell? c = some x) (y : Cell) :
    (h.setCell c (some y)).liveCells = h.liveCells :=
  Nat.add_right_cancel (liveCells_setCell hc (some y))

/-! ## Cascades -/

section
variable {I : Heap → Prop}
  (hrecount : ∀ {h : Heap} {σ c x}, h.Exact (c :: σ) → h.cell? c = some x → 1 < x.refcount → I h →
    I (h.setCell c (some { x with refcount := x.refcount - 1 })))
  (hfree : ∀ {h : Heap} {σ c x}, h.Exact (c :: σ) → h.cell? c = some x → x.refcount ≤ 1 → I h →
    I (h.setCell c none))
include hrecount hfree

theorem Exact.drop_aux : ∀ (depth : Nat) {h : Heap} {σ : List CellId} {c : CellId},
    h.Exact (c :: σ) → h.liveCells ≤ depth → I h →
      (h.drop depth c).Exact σ ∧ (h.drop depth c).liveCells ≤ h.liveCells ∧ I (h.drop depth c)
  -- the depth bounds the live cells, and every level of a cascade frees one
  | 0, h, σ, c, he, hn, _ => by
    obtain ⟨x, hx⟩ := he.cell?_of_mem (List.mem_cons_self ..)
    have := liveCells_free hx
    omega
  | depth + 1, h, σ, c, he, hn, hI => by
    -- the stakes that are still to be given back come before the others
    have hall : ∀ (cs : List CellId) (h : Heap), h.Exact (cs ++ σ) → h.liveCells ≤ depth → I h →
        (cs.foldl (Heap.drop depth) h).Exact σ ∧
          (cs.foldl (Heap.drop depth) h).liveCells ≤ h.liveCells ∧
            I (cs.foldl (Heap.drop depth) h) := by
      intro cs
      induction cs with
      | nil => exact fun h he _ hI => ⟨he, Nat.le_refl _, hI⟩
      | cons d cs ih =>
        intro h he hn hI
        obtain ⟨he', hn', hI'⟩ := Exact.drop_aux depth he hn hI
        obtain ⟨he'', hn'', hI''⟩ := ih _ he' (by omega) hI'
        exact ⟨he'', Nat.le_trans hn'' hn', hI''⟩
    obtain ⟨x, hx⟩ := he.cell?_of_mem (List.mem_cons_self ..)
    rcases Nat.lt_or_ge 1 x.refcount with hr | hr
    · rw [drop_other hx hr]
      exact ⟨he.giveBack hx hr, Nat.le_of_eq (liveCells_recount hx _), hrecount he hx hr hI⟩
    · rw [drop_last hx hr]
      have hlive := liveCells_free hx
      obtain ⟨he', hn', hI'⟩ := hall _ _ (he.free hx hr) (by omega) (hfree he hx hr hI)
      exact ⟨he', by omega, hI'⟩

/-- What goes on while counts are taken and cells without holders are freed goes on through a
cascade. -/
theorem Exact.drop_keeps (he : h.Exact (c :: σ)) (hI : I h) : I (h.drop h.cells.size c) :=
  (Exact.drop_aux hrecount hfree _ he (liveCells_le_size h) hI).2.2

end

/-- Giving a stake back leaves the heap exact for the others, whatever is freed on the way. -/
theorem Exact.drop (he : h.Exact (c :: σ)) : (h.drop h.cells.size c).Exact σ :=
  (Exact.drop_aux (I := fun _ => True) (fun _ _ _ _ => trivial) (fun _ _ _ _ => trivial) _ he
    (liveCells_le_size h) trivial).1

end Embedding.Heap
