import Embedding.Proofs.Heap.Containers

/-!
# What stays of a heap

A heap is firm towards an earlier one if the contents of the cells that are left of that one count as
the same. Counts are left aside, and so are the cells that have come since.
-/

namespace Embedding.Heap

variable {base h h' : Heap} {c d : CellId} {x : Cell}

/-- Which contents of a cell count as the same. -/
abbrev Sameness := CellId → Content → Content → Prop

def Unchanged : Sameness := fun _ x y => y = x

/-- Contents that are equal in all cells but one. -/
def Besides (c : CellId) : Sameness := fun d x y => d ≠ c → y = x

/-- Contents that are equal but for the place of an iteration. -/
def Turning : Sameness := fun _ x y => y = x ∨ ∃ entries i j, x = .hash entries i ∧ y = .hash entries j

section
variable {x y z : Content}

theorem turning_children (hs : Turning c x y) : y.children = x.children := by
  rcases hs with rfl | ⟨entries, i, j, rfl, rfl⟩ <;> rfl

theorem turning_slot? (hs : Turning c x y) : y.slot? = x.slot? := by
  rcases hs with rfl | ⟨entries, i, j, rfl, rfl⟩ <;> rfl

theorem turning_symm (hs : Turning c x y) : Turning c y x := by
  rcases hs with rfl | ⟨entries, i, j, rfl, rfl⟩
  · exact .inl rfl
  · exact .inr ⟨entries, j, i, rfl, rfl⟩

theorem turning_trans (h₁ : Turning c x y) (h₂ : Turning c y z) : Turning c x z := by
  rcases h₁ with rfl | ⟨entries, i, j, rfl, rfl⟩
  · exact h₂
  · rcases h₂ with rfl | ⟨entries', i', j', he, rfl⟩
    · exact .inr ⟨entries, i, j, rfl, rfl⟩
    · cases he
      exact .inr ⟨entries, i, j', rfl, rfl⟩

end

structure Firm (same : Sameness) (base h : Heap) : Prop where
  size : base.cells.size ≤ h.cells.size
  symbols : h.symbols = base.symbols
  cells : ∀ c x', c.index < base.cells.size → h.cell? c = some x' →
    ∃ x, base.cell? c = some x ∧ same c x.content x'.content ∧ x'.package = x.package

section
variable {same same' same'' : Sameness}

theorem firm_refl (hsame : ∀ c x, same c x x) (h : Heap) : h.Firm same h where
  size := Nat.le_refl _
  symbols := rfl
  cells c x _ hx := ⟨x, hx, hsame c x.content, rfl⟩

theorem Firm.trans (h₁ : base.Firm same h) (h₂ : h.Firm same' h')
    (hsame : ∀ c x y z, c.index < base.cells.size → same c x y → same' c y z → same'' c x z) :
    base.Firm same'' h' where
  size := Nat.le_trans h₁.size h₂.size
  symbols := h₂.symbols.trans h₁.symbols
  cells c x'' hc hx'' := by
    obtain ⟨x', hx', hs', hp'⟩ := h₂.cells c x'' (Nat.lt_of_lt_of_le hc h₁.size) hx''
    obtain ⟨x, hx, hs, hp⟩ := h₁.cells c x' hc hx'
    exact ⟨x, hx, hsame c _ _ _ hc hs hs', hp'.trans hp⟩

theorem Firm.unchanged (h₁ : base.Firm same h) (h₂ : h.Firm Unchanged h') : base.Firm same h' := by
  refine h₁.trans h₂ ?_
  rintro c x y z - hs rfl
  exact hs

theorem Firm.besides (h₁ : base.Firm same h) (h₂ : h.Firm (Besides d) h')
    (hd : base.cells.size ≤ d.index) : base.Firm same h' := by
  refine h₁.trans h₂ fun c x y z hc hs hs' => ?_
  have hne : c ≠ d := fun e => Nat.not_lt.2 hd (e ▸ hc)
  rwa [hs' hne]

theorem Firm.turning (h₁ : base.Firm Turning h) (h₂ : h.Firm Turning h') : base.Firm Turning h' :=
  h₁.trans h₂ fun _ _ _ _ _ => turning_trans

theorem Firm.content (hf : base.Firm Unchanged h) (hx : base.cell? c = some x) (hlive : h.isLive c) :
    ∃ x', h.cell? c = some x' ∧ x'.content = x.content := by
  obtain ⟨x', hx'⟩ := exists_cell hlive
  obtain ⟨y, hy, hs, -⟩ := hf.cells c x' (lt_of_cell? hx) hx'
  obtain rfl := Option.some.inj (hx.symm.trans hy)
  exact ⟨x', hx', hs⟩

theorem Firm.scalar_ok {s : Embedding.Scalar} (hf : base.Firm same h) (hc : base.scalar c = .ok s)
    (hsame : ∀ y, same c (.scalar s) y → y = .scalar s) (hlive : h.isLive c) :
    h.scalar c = .ok s := by
  obtain ⟨x, hx, hcontent⟩ := scalar_eq_ok_iff.1 hc
  obtain ⟨x', hx'⟩ := exists_cell hlive
  obtain ⟨y, hy, hs, -⟩ := hf.cells c x' (lt_of_cell? hx) hx'
  obtain rfl := Option.some.inj (hx.symm.trans hy)
  rw [hcontent] at hs
  exact scalar_eq_ok_iff.2 ⟨x', hx', hsame _ hs⟩

theorem turning_scalar {s : Embedding.Scalar} (y : Content) (hs : Turning c (.scalar s) y) :
    y = .scalar s := by
  rcases hs with rfl | ⟨entries, i, j, he, -⟩
  · rfl
  · cases he

end

/-! ## Growing and shrinking -/

theorem Grows.firm (hg : h.Grows h') : h.Firm Unchanged h' where
  size := hg.size
  symbols := hg.symbols
  cells c x' hc hx' := by
    obtain ⟨x, hx⟩ := hg.old c x' hx' hc
    obtain ⟨n, hn⟩ := hg.cells c x hx
    obtain rfl := Option.some.inj (hx'.symm.trans hn)
    exact ⟨x, hx, rfl, rfl⟩

theorem Shrinks.firm (hs : h.Shrinks h') : h.Firm Unchanged h' where
  size := Nat.le_of_eq hs.size.symm
  symbols := hs.symbols
  cells c x' _ hx' := by
    obtain ⟨x, hx, hcontent, hpackage⟩ := hs.cells c x' hx'
    exact ⟨x, hx, hcontent, hpackage⟩

theorem retain_grows (h : Heap) (c : CellId) : h.Grows ((retain c).run h).2 := by
  by_cases hc : h.isLive c
  · obtain ⟨x, hx⟩ := exists_cell hc
    rw [run_retain hx]
    exact grows_recount hx _
  · rw [run_retain_freed hc]
    exact .refl h

theorem deref_grows (h : Heap) (c : CellId) : Ends (deref c) h fun _ h' => h.Grows h' := by
  unfold Ends deref
  rw [run_bind, run_query]
  cases h.target c with
  | error e => exact .refl h
  | ok target =>
    have hg := retain_grows h target
    dsimp only
    rw [run_bind]
    generalize (retain target).run h = p at hg ⊢
    obtain ⟨_ | _, h'⟩ := p <;> exact hg

theorem newRef_grows (h : Heap) (c : CellId) : Ends (newRef c) h fun _ h' => h.Grows h' := by
  unfold Ends newRef
  have hg := retain_grows h c
  rw [run_bind]
  generalize (retain c).run h = p at hg ⊢
  obtain ⟨_ | _, h'⟩ := p
  · exact hg
  · exact hg.trans (grows_allocate h' _)

theorem release_shrinks (h : Heap) (c : CellId) : h.Shrinks ((release c).run h).2 := by
  by_cases hc : h.isLive c
  · rw [run_release hc]
    exact shrinks_drop _ h c
  · rw [release, run_bind_error (by rw [run_query, cell_of_not_live hc])]
    exact .refl h

theorem Sound.run_release {σ : List CellId} (hs : h.Sound (c :: σ)) :
    ∃ h', (release c).run h = (.ok (), h') ∧ h.Shrinks h' ∧ h'.Sound σ := by
  obtain ⟨_, h', hrun, -, hs'⟩ := gives_release h c σ hs
  have hshrinks := release_shrinks h c
  rw [hrun] at hshrinks
  exact ⟨h', hrun, hshrinks, hs'⟩

theorem releaseAll_shrinks : ∀ (cs : List CellId) (h : Heap), h.Shrinks ((releaseAll cs).run h).2
  | [], h => .refl h
  | c :: cs, h => by
    have hfirst := release_shrinks h c
    change h.Shrinks (((release c) >>= fun _ => releaseAll cs).run h).2
    rw [run_bind]
    generalize (release c).run h = p at hfirst ⊢
    obtain ⟨_ | _, h₁⟩ := p
    · exact hfirst
    · exact hfirst.trans (releaseAll_shrinks cs h₁)

theorem Sound.run_releaseAll {cs σ : List CellId} (hs : h.Sound (cs ++ σ)) :
    ∃ h', (releaseAll cs).run h = (.ok (), h') ∧ h.Shrinks h' ∧ h'.Sound σ := by
  obtain ⟨_, h', hrun, -, hs'⟩ := gives_releaseAll cs h σ hs
  have hshrinks := releaseAll_shrinks cs h
  rw [hrun] at hshrinks
  exact ⟨h', hrun, hshrinks, hs'⟩

theorem releaseOption_shrinks (h : Heap) (o : Option CellId) :
    h.Shrinks ((releaseOption o).run h).2 := by
  cases o with
  | none => exact .refl h
  | some c => exact release_shrinks h c

theorem cell?_allocUndefs (h : Heap) (n : Nat) (c : CellId) :
    ((allocUndefs n).run h).2.cell? c =
      if c.index < h.cells.size then h.cell? c
      else if c.index < h.cells.size + n then some ⟨1, none, .scalar .undef⟩ else none := by
  change ((h.cells ++ Array.replicate n _)[c.index]?).join = _
  rw [Array.getElem?_append]
  split
  · rfl
  · rw [Array.getElem?_replicate]
    by_cases hc : c.index < h.cells.size + n
    · rw [if_pos (by omega), if_pos hc]
      rfl
    · rw [if_neg (by omega), if_neg hc]
      rfl

theorem allocUndefs_grows (h : Heap) (n : Nat) : h.Grows ((allocUndefs n).run h).2 := by
  refine ⟨rfl, fun c x hx hc => ?_, fun c x hx => ⟨x.refcount, ?_⟩, ?_⟩
  · rw [cell?_allocUndefs, if_pos hc] at hx
    exact ⟨x, hx⟩
  · rw [cell?_allocUndefs, if_pos (lt_of_cell? hx)]
    exact hx
  · change h.cells.size ≤ (h.cells ++ Array.replicate n _).size
    rw [Array.size_append]
    exact Nat.le_add_right ..

/-! ## Changes of one cell -/

theorem firm_setCell (hc : h.cell? c = some x) (content : Content) (n : Nat) {same : Sameness}
    (hsame : ∀ d y, d ≠ c → same d y y) (hc' : same c x.content content) :
    h.Firm same (h.setCell c (some { x with content, refcount := n })) where
  size := by simp [setCell]
  symbols := rfl
  cells d y _ hy := by
    rw [cell?_setCell] at hy
    split at hy
    · next e =>
      obtain ⟨rfl, -⟩ := e
      cases hy
      exact ⟨x, hc, hc', rfl⟩
    · next e =>
      have hne : d ≠ c := by
        rintro rfl
        exact e ⟨rfl, lt_of_cell? hc⟩
      exact ⟨y, hy, hsame d _ hne, rfl⟩

theorem Firm.besides_trans (h₁ : base.Firm (Besides c) h) (h₂ : h.Firm (Besides c) h') :
    base.Firm (Besides c) h' :=
  h₁.trans h₂ fun _ _ _ _ _ hs hs' hne => (hs' hne).trans (hs hne)

section
variable (base) (c)

theorem preserves_grows {α : Type} {x : HeapM α} {same : Sameness}
    (hx : ∀ h : Heap, h.Grows (x.run h).2) : Preserves (base.Firm same) x :=
  fun h hf => hf.unchanged (hx h).firm

theorem preserves_shrinks {α : Type} {x : HeapM α} {same : Sameness}
    (hx : ∀ h : Heap, h.Shrinks (x.run h).2) : Preserves (base.Firm same) x :=
  fun h hf => hf.unchanged (hx h).firm

theorem preserves_query {α : Type} {I : Heap → Prop} (f : Heap → Except Fault α) :
    Preserves I (query f) := fun _ hI => hI

theorem preserves_fetch {α : Type} {I : Heap → Prop} (hretain : ∀ c, Preserves I (retain c))
    (f : Heap → Except Fault α) (found : α → Option CellId) : Preserves I (do
      match found (← query f) with
      | some c =>
        retain c
        return some c
      | none => return none : HeapM (Option CellId)) := by
  refine (preserves_query f).bind fun a => ?_
  split
  · exact (hretain _).bind fun _ _ hI => hI
  · exact fun _ hI => hI

theorem preserves_setContent (content : Content) :
    Preserves (base.Firm (Besides c)) (setContent c content) := by
  intro h hf
  cases hx : h.cell? c with
  | none =>
    rw [setContent, run_bind_error (by rw [run_query, cell_eq_error_iff.2 ⟨hx, rfl⟩])]
    exact hf
  | some x =>
    rw [setContent, run_bind_ok (by rw [run_query, cell_ok hx])]
    exact hf.besides_trans (firm_setCell hx content x.refcount (fun _ _ _ _ => rfl)
      fun hne => absurd rfl hne)

theorem preserves_releaseAll {same : Sameness} : ∀ cs : List CellId,
    Preserves (base.Firm same) (releaseAll cs)
  | [] => fun _ hf => hf
  | d :: cs =>
    (preserves_shrinks base fun h => release_shrinks h d).bind fun _ => preserves_releaseAll cs

theorem preserves_arrayClear : Preserves (base.Firm (Besides c)) (arrayClear c) :=
  (preserves_query _).bind fun _ => (preserves_setContent base c _).bind fun _ =>
    preserves_releaseAll base _

theorem preserves_hashClear : Preserves (base.Firm (Besides c)) (hashClear c) :=
  (preserves_query _).bind fun _ => (preserves_setContent base c _).bind fun _ =>
    preserves_releaseAll base _

theorem preserves_assign (src : CellId) : Preserves (base.Firm (Besides c)) (assign c src) := by
  rw [assign_eq]
  refine (preserves_query _).bind fun _ => ?_
  refine (preserves_grows base fun h => takeValue_grows h src).bind fun _ => ?_
  refine (preserves_query _).bind fun _ => ?_
  exact (preserves_setContent base c _).bind fun _ =>
    preserves_shrinks base fun h => releaseOption_shrinks h _

theorem preserves_arrayStore (index : Nat) (value : CellId) :
    Preserves (base.Firm (Besides c)) (arrayStore c index value) := by
  rw [arrayStore_eq]
  refine (preserves_query _).bind fun length => ?_
  refine (preserves_grows base fun h => copy_grows h value).bind fun item => ?_
  refine (preserves_grows base fun h => allocUndefs_grows h _).bind fun fill => ?_
  refine (preserves_query _).bind fun items => ?_
  unfold place
  split
  · exact (preserves_setContent base c _).bind fun _ =>
      preserves_shrinks base fun h => release_shrinks h _
  · exact preserves_setContent base c _

theorem preserves_hashStore (key : String) (value : CellId) :
    Preserves (base.Firm (Besides c)) (hashStore c key value) := by
  rw [hashStore_eq]
  refine (preserves_query _).bind fun _ => ?_
  refine (preserves_grows base fun h => copy_grows h value).bind fun item => ?_
  refine (preserves_query _).bind fun p => ?_
  exact (preserves_setContent base c _).bind fun _ =>
    preserves_shrinks base fun h => releaseOption_shrinks h _

end

end Embedding.Heap
