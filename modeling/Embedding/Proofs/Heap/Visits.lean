import Embedding.Proofs.Heap.Walks

/-!
# Visited heaps

A heap is visited while its cells are only looked at, and counts on them are taken and given back.
Which of them are live in the end, and with which counts, depends on the stakes that are left alone.
-/

namespace Embedding.Heap

variable {C σ τ : List CellId} {P : CellId → Prop} {g h h' : Heap} {c d : CellId} {x : Cell}

/-! ## Knots -/

/-- Cells that are held by one another. They stay without any stake in them. -/
def Knot (h : Heap) (P : CellId → Prop) : Prop :=
  ∀ c, P c → ∃ d x, P d ∧ h.cell? d = some x ∧ c ∈ x.content.children

theorem Knot.isLive (hk : h.Knot P) (he : h.Exact σ) (hc : P c) : h.isLive c := by
  obtain ⟨d, x, -, hx, hmem⟩ := hk c hc
  exact he.isLive_child hx hmem

theorem Knot.recount (hk : h.Knot P) (hc : h.cell? c = some x) (n : Nat) :
    (h.setCell c (some { x with refcount := n })).Knot P := by
  intro d hd
  obtain ⟨e, y, he, hy, hmem⟩ := hk d hd
  obtain ⟨m, hm⟩ := (grows_recount hc n).cells e y hy
  exact ⟨e, _, he, hm, hmem⟩

/-- The last count of a cell that is held by another is not given back. -/
theorem Knot.not_mem (hk : h.Knot P) (he : h.Exact (c :: σ)) (hc : h.cell? c = some x)
    (hx : x.refcount ≤ 1) : ¬ P c := by
  intro hP
  obtain ⟨d, y, -, hy, hmem⟩ := hk c hP
  have hplace : c ∈ h.places := mem_places_iff.2 (.inl ⟨d, y, hy, hmem⟩)
  have hcount := (he.counts c x hc).1
  have hpos := List.count_pos_iff.2 hplace
  rw [List.count_append, List.count_cons_self] at hcount
  omega

theorem Knot.free (hk : h.Knot P) (he : h.Exact (c :: σ)) (hc : h.cell? c = some x)
    (hx : x.refcount ≤ 1) : (h.setCell c none).Knot P := by
  intro d hd
  obtain ⟨e, y, hPe, hy, hmem⟩ := hk d hd
  have hne : c ≠ e := fun h => hk.not_mem he hc hx (h ▸ hPe)
  exact ⟨e, y, hPe, by rw [cell?_setCell, if_neg fun h => hne h.1, hy], hmem⟩

theorem Knot.drop (hk : h.Knot P) (he : h.Exact (c :: σ)) : (h.drop h.cells.size c).Knot P :=
  he.drop_keeps (I := (Knot · P)) (fun _ hc _ hk => hk.recount hc _)
    (fun he hc hx hk => hk.free he hc hx) hk

/-! ## Visits -/

/-- Contents that are equal but for the place of an iteration over one of the hashes. -/
def TurningAt (C : List CellId) : Sameness := fun c x y => y = x ∨ c ∈ C ∧ Turning c x y

theorem TurningAt.turning {x y : Content} (hs : TurningAt C c x y) : Turning c x y :=
  hs.elim .inl And.right

theorem TurningAt.trans {x y z : Content} (h₁ : TurningAt C c x y) (h₂ : TurningAt C c y z) :
    TurningAt C c x z := by
  rcases h₁ with rfl | ⟨hc, h₁⟩
  · exact h₂
  · exact .inr ⟨hc, turning_trans h₁ h₂.turning⟩

theorem TurningAt.symm {x y : Content} (hs : TurningAt C c x y) : TurningAt C c y x :=
  hs.imp Eq.symm fun ⟨hc, hs⟩ => ⟨hc, turning_symm hs⟩

/-- What was done to a heap has left alone what its cells hold, and what holds itself from within. -/
structure Tended (C : List CellId) (g h : Heap) : Prop where
  firm : g.Firm (TurningAt C) h
  knots : ∀ P, g.Knot P → ∀ c, P c → h.isLive c

/-- What looks have left of a heap. -/
structure Visited (C : List CellId) (g h : Heap) : Prop extends Tended C g h where
  /-- Cells that have come since hold older ones only. -/
  older : ∀ c x, h.cell? c = some x → g.cells.size ≤ c.index →
    ∀ d ∈ x.content.children, d.index < c.index

theorem tended_refl (hg : g.Exact σ) (C : List CellId) : Tended C g g where
  firm := firm_refl (fun _ _ => .inl rfl) g
  knots _ hk _ hc := hk.isLive hg hc

theorem visited_refl (hg : g.Exact σ) (C : List CellId) : Visited C g g where
  toTended := tended_refl hg C
  older _ _ hx hc := absurd (lt_of_cell? hx) (Nat.not_lt.2 hc)

theorem Tended.goesOn (ht : Tended C g h) (hf : g.Firm (TurningAt C) h')
    (hlive : ∀ c, h.isLive c → h'.isLive c) : Tended C g h' :=
  ⟨hf, fun P hk c hc => hlive c (ht.knots P hk c hc)⟩

theorem Tended.release (ht : Tended C g h) (he : h.Exact (c :: σ)) :
    Tended C g ((release c).run h).2 := by
  have hrun : ((Heap.release c).run h).2 = h.drop h.cells.size c := by
    rw [run_release (he.held c (List.mem_append_right _ (List.mem_cons_self ..)))]
  refine ⟨ht.firm.unchanged (release_shrinks h c).firm, fun P hk d hd => ?_⟩
  -- a knot of the first heap is one of this heap too
  have hk' : h.Knot P := by
    intro a ha
    obtain ⟨b, x, hb, hx, hmem⟩ := hk a ha
    obtain ⟨x', hx'⟩ := exists_cell (ht.knots P hk b hb)
    obtain ⟨y, hy, hs, -⟩ := ht.firm.cells b x' (lt_of_cell? hx) hx'
    obtain rfl := Option.some.inj (hx.symm.trans hy)
    exact ⟨b, x', hb, hx', turning_children hs.turning ▸ hmem⟩
  rw [hrun]
  exact (hk'.drop he).isLive he.drop hd

/-- A visit goes on in a heap that differs in places of iterations, in counts and in new cells. -/
theorem Visited.goesOn (hv : Visited C g h) (hf : h.Firm (TurningAt C) h')
    (hlive : ∀ c, h.isLive c → h'.isLive c)
    (hnew : ∀ c x, h'.cell? c = some x → h.cells.size ≤ c.index →
      ∀ d ∈ x.content.children, d.index < c.index) : Visited C g h' where
  toTended := hv.toTended.goesOn (hv.firm.trans hf fun _ _ _ _ _ => TurningAt.trans) hlive
  older c x' hx' hc d hd := by
    rcases Nat.lt_or_ge c.index h.cells.size with hlt | hge
    · obtain ⟨x, hx, hs, -⟩ := hf.cells c x' hlt hx'
      exact hv.older c x hx hc d (turning_children hs.turning ▸ hd)
    · exact hnew c x' hx' hge d hd

theorem size_retain (h : Heap) (c : CellId) : ((retain c).run h).2.cells.size = h.cells.size := by
  by_cases hc : h.isLive c
  · obtain ⟨x, hx⟩ := exists_cell hc
    rw [run_retain hx]
    simp [setCell]
  · rw [run_retain_freed hc]

theorem Visited.retain (hv : Visited C g h) (c : CellId) : Visited C g ((retain c).run h).2 := by
  have hg := retain_grows h c
  refine hv.goesOn ((firm_refl (fun _ _ => .inl rfl) h).unchanged hg.firm) (fun _ => hg.isLive) ?_
  intro d x hx hd
  exact absurd (size_retain h c ▸ lt_of_cell? hx) (Nat.not_lt.2 hd)

theorem Visited.turned {S : List CellId} (hv : Visited C g h) (ht : Turned S h h') (hS : S ⊆ C) :
    Visited C g h' := by
  refine hv.goesOn ⟨Nat.le_of_eq ht.size.symm, ht.symbols, ?_⟩ (fun c hc => ?_) fun c x hx hc => ?_
  · intro c x' hlt hx'
    obtain ⟨x, hx, hs, hpackage⟩ := ht.firm.cells c x' hlt hx'
    refine ⟨x, hx, ?_, hpackage⟩
    by_cases hc : c ∈ S
    · exact .inr ⟨hS hc, hs⟩
    · rw [ht.outside c hc, hx] at hx'
      cases hx'
      exact .inl rfl
  · obtain ⟨x, hx⟩ := exists_cell hc
    rcases ht.same c with he | ⟨n, p, d, i, j, -, hh⟩
    · exact isLive_of_cell? (he.trans hx)
    · exact isLive_of_cell? hh
  · exact absurd (ht.size ▸ lt_of_cell? hx) (Nat.not_lt.2 hc)

theorem Visited.newRef (hv : Visited C g h) (hc : h.isLive c) : Visited C g ((newRef c).run h).2 := by
  obtain ⟨x, hx⟩ := exists_cell hc
  have hlt := lt_of_cell? hx
  have hsize := size_retain h c
  have hrun : ((Heap.newRef c).run h).2 = (((Heap.retain c).run h).2.allocate (.scalar (.ofRef c))).2 := by
    rw [Heap.newRef, run_bind_ok (run_retain hx), run_retain hx]
    rfl
  have hgrows := grows_allocate ((Heap.retain c).run h).2 (.scalar (.ofRef c))
  rw [hrun]
  refine (hv.retain c).goesOn ((firm_refl (fun _ _ => .inl rfl) _).unchanged hgrows.firm)
    (fun _ => hgrows.isLive) fun d y hy hd e he => ?_
  -- the reference is the only cell that has come
  rw [cell?_allocate] at hy
  split at hy
  · next heq =>
    cases hy
    obtain rfl : e = c := by simpa [Content.children, Scalar.ofRef] using he
    rw [heq]
    exact Nat.lt_of_lt_of_eq hlt hsize.symm
  · exact absurd (lt_of_cell? hy) (Nat.not_lt.2 hd)

theorem Visited.release (hv : Visited C g h) (he : h.Exact (c :: σ)) :
    Visited C g ((release c).run h).2 where
  toTended := hv.toTended.release he
  older d x' hx' := by
    obtain ⟨x, hx, hcontent, -⟩ := (release_shrinks h c).cells d x' hx'
    rw [hcontent]
    exact hv.older d x hx

/-! ## After a visit -/

/-- Two heaps have the same cells with the same counts and contents, but for places of iterations over
some hashes. -/
structure Spares (C : List CellId) (h h' : Heap) : Prop where
  symbols : h'.symbols = h.symbols
  same : ∀ c, SameCell (h.cell? c) (h'.cell? c)
  outside : ∀ c, c ∉ C → h'.cell? c = h.cell? c

/-- Cells that have come during a visit are gone when the stakes are in older cells again. -/
theorem Visited.lt_size (hg : g.Exact τ) (hσ : ∀ c ∈ σ, g.isLive c) (hv : Visited C g h)
    (hs : h.Exact σ) {c : CellId} (hc : h.isLive c) : c.index < g.cells.size := by
  have hold {d : CellId} (hd : g.isLive d) : d.index < g.cells.size := by
    obtain ⟨x, hx⟩ := exists_cell hd
    exact lt_of_cell? hx
  -- the holder of a cell that has come since would have come even later
  induction hn : h.cells.size - c.index using Nat.strongRecOn generalizing c with
  | ind n ih =>
    rcases hs.holder hc with hmem | hmem | ⟨d, x, hx, hmem⟩
    · exact hold (hσ c hmem)
    · rw [hv.firm.symbols] at hmem
      exact hold (hg.held c (List.mem_append_left _ (mem_places_iff.2 (.inr hmem))))
    · rcases Nat.lt_or_ge d.index g.cells.size with hd | hd
      · obtain ⟨y, hy, hsame, -⟩ := hv.firm.cells d x hd hx
        exact hold (hg.isLive_child hy (turning_children hsame.turning ▸ hmem))
      · have hcd := hv.older d x hx hd c hmem
        have hdh := lt_of_cell? hx
        exact absurd (ih _ (by omega) (isLive_of_cell? hx) rfl) (Nat.not_lt.2 hd)

/-- The stakes decide which cells are live, once those that have come since are gone. -/
theorem Tended.isLive (ht : Tended C g h) (hs : h.Exact σ)
    (hold : ∀ d, h.isLive d → d.index < g.cells.size) (ht' : Tended C g h') (hs' : h'.Exact τ)
    (hsub : σ ⊆ τ) (hc : h.isLive c) : h'.isLive c := by
  refine Decidable.byContradiction fun hnot => hnot ?_
  -- what is live only here would be a knot
  refine ht'.knots (fun c => h.isLive c ∧ ¬ h'.isLive c) (fun c ⟨hc, hnot⟩ => ?_) c ⟨hc, hnot⟩
  rcases hs.holder hc with hmem | hmem | ⟨d, x, hx, hmem⟩
  · exact absurd (hs'.held c (List.mem_append_right _ (hsub hmem))) hnot
  · rw [ht.firm.symbols, ← ht'.firm.symbols] at hmem
    exact absurd (hs'.held c (List.mem_append_left _ (mem_places_iff.2 (.inr hmem)))) hnot
  · have hd := hold d (isLive_of_cell? hx)
    obtain ⟨y, hy, hsame, -⟩ := ht.firm.cells d x hd hx
    rw [turning_children hsame.turning] at hmem
    refine ⟨d, y, ⟨isLive_of_cell? hx, fun hlive => hnot ?_⟩, hy, hmem⟩
    obtain ⟨x', hx'⟩ := exists_cell hlive
    obtain ⟨z, hz, hsame', -⟩ := ht'.firm.cells d x' hd hx'
    obtain rfl := Option.some.inj (hy.symm.trans hz)
    exact hs'.isLive_child hx' (turning_children hsame'.turning ▸ hmem)

theorem Tended.cells (ht : Tended C g h) (hs : h.Exact σ)
    (hold : ∀ d, h.isLive d → d.index < g.cells.size) (ht' : Tended C g h') (hs' : h'.Exact σ) {x : Cell}
    (hx : h.cell? c = some x) : ∃ x', h'.cell? c = some x' ∧
      TurningAt C c x.content x'.content ∧ x'.package = x.package := by
  have hlive := isLive_of_cell? hx
  have hlt := hold c hlive
  obtain ⟨x', hx'⟩ := exists_cell (ht.isLive hs hold ht' hs' (fun _ h => h) hlive)
  obtain ⟨y, hy, hsame, hpackage⟩ := ht.firm.cells c x hlt hx
  obtain ⟨z, hz, hsame', hpackage'⟩ := ht'.firm.cells c x' hlt hx'
  obtain rfl := Option.some.inj (hy.symm.trans hz)
  exact ⟨x', hx', hsame.symm.trans hsame', hpackage'.trans hpackage.symm⟩

theorem flatMap_held : ∀ {l m : List (Option Cell)},
    (∀ i : Nat, Cell.held (m[i]?.join) = Cell.held (l[i]?.join)) →
      m.flatMap Cell.held = l.flatMap Cell.held
  | [], [], _ => rfl
  | [], o :: m, hl => by
    have ho : Cell.held o = [] := hl 0
    rw [List.flatMap_cons, ho, flatMap_held (l := []) (m := m) fun i => hl (i + 1)]
    rfl
  | o :: l, [], hl => by
    have ho : [] = Cell.held o := hl 0
    rw [List.flatMap_cons, ← ho, ← flatMap_held (l := l) (m := []) fun i => hl (i + 1)]
    rfl
  | o :: l, o' :: m, hl => by
    have ho : Cell.held o' = Cell.held o := hl 0
    rw [List.flatMap_cons, List.flatMap_cons, ho, flatMap_held fun i => hl (i + 1)]

theorem Tended.spares (ht : Tended C g h) (hs : h.Exact σ)
    (hold : ∀ d, h.isLive d → d.index < g.cells.size) (ht' : Tended C g h') (hs' : h'.Exact σ)
    (hold' : ∀ d, h'.isLive d → d.index < g.cells.size) : Spares C h h' := by
  have hsymbols : h'.symbols = h.symbols := ht'.firm.symbols.trans ht.firm.symbols.symm
  have hnone {c : CellId} (hx : h.cell? c = none) : h'.cell? c = none := by
    cases hx' : h'.cell? c with
    | none => rfl
    | some x' =>
      obtain ⟨x, hx₁, -⟩ := ht'.cells hs' hold' ht hs hx'
      cases hx.symm.trans hx₁
  -- the places are the same, and with them the counts
  have hplaces : h'.places = h.places := by
    rw [places, places, hsymbols]
    refine congrArg (· ++ _) (flatMap_held fun i => ?_)
    rw [Array.getElem?_toList, Array.getElem?_toList]
    change Cell.held (h'.cell? ⟨i⟩) = Cell.held (h.cell? ⟨i⟩)
    cases hx : h.cell? ⟨i⟩ with
    | none => rw [hnone hx]
    | some x =>
      obtain ⟨x', hx', hsame, -⟩ := ht.cells hs hold ht' hs' hx
      rw [hx']
      exact turning_children hsame.turning
  have hcells (c : CellId) : h'.cell? c = h.cell? c ∨ c ∈ C ∧ SameCell (h.cell? c) (h'.cell? c) := by
    cases hx : h.cell? c with
    | none => exact .inl (hnone hx)
    | some x =>
      obtain ⟨x', hx', hsame, hpackage⟩ := ht.cells hs hold ht' hs' hx
      have hcount : x'.refcount = x.refcount := by
        rw [(hs'.counts c x' hx').1, hplaces, (hs.counts c x hx).1]
      obtain ⟨n, p, content⟩ := x
      obtain ⟨n', p', content'⟩ := x'
      obtain rfl : n' = n := hcount
      obtain rfl : p' = p := hpackage
      rw [hx']
      rcases hsame with heq | ⟨hc, heq | ⟨entries, i, j, hi, hj⟩⟩
      · obtain rfl : content' = content := heq
        exact .inl rfl
      · obtain rfl : content' = content := heq
        exact .inl rfl
      · obtain rfl : content = .hash entries i := hi
        obtain rfl : content' = .hash entries j := hj
        exact .inr ⟨hc, .inr ⟨n', p', entries, i, j, rfl, rfl⟩⟩
  exact ⟨hsymbols, fun c => (hcells c).elim .inl And.right,
    fun c hc => (hcells c).resolve_right fun h => hc h.1⟩

/-- After two visits of a heap that leave the same stakes, everything is the same. -/
theorem Visited.spares (hg : g.Exact τ) (hσ : ∀ c ∈ σ, g.isLive c) (hv : Visited C g h)
    (hs : h.Exact σ) (hv' : Visited C g h') (hs' : h'.Exact σ) : Spares C h h' :=
  hv.toTended.spares hs (fun _ => hv.lt_size hg hσ hs) hv'.toTended hs' fun _ => hv'.lt_size hg hσ hs'

end Embedding.Heap
