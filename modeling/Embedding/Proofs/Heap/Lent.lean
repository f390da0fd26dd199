import Embedding.Proofs.Heap.Quiet

/-!
# Lent counts

While the host looks at cells it has counts on them, which it gives back later. A heap with lent
counts has the cells of the heap before, and only the counts of some are higher.
-/

namespace Embedding

def Cell.lend (n : Nat) (x : Cell) : Cell := { x with refcount := x.refcount + n }

namespace Heap

/-- `h` is the heap `g` with one more count for each of the cells `cs`. -/
structure Lent (g h : Heap) (cs : List CellId) : Prop where
  size : h.cells.size = g.cells.size
  symbols : h.symbols = g.symbols
  loaded : h.loaded = g.loaded
  cells : ∀ x, h.cell? x = (g.cell? x).map (Cell.lend (cs.count x))

section
variable {g h h' : Heap} {c d : CellId} {cs ds : List CellId} {x : Cell}

theorem lent_refl (h : Heap) : Lent h h [] := ⟨rfl, rfl, rfl, fun x => by
  rw [List.count_nil]
  cases h.cell? x <;> rfl⟩

theorem Lent.perm (hl : Lent g h cs) (hp : cs.Perm ds) : Lent g h ds :=
  ⟨hl.size, hl.symbols, hl.loaded, fun x => by rw [hl.cells, hp.count_eq]⟩

theorem Lent.cell (hl : Lent g h cs) (hc : g.cell? c = some x) :
    h.cell? c = some (x.lend (cs.count c)) := by
  rw [hl.cells, hc]
  rfl

theorem Lent.cell_of_not_mem (hl : Lent g h cs) (hc : c ∉ cs) : h.cell? c = g.cell? c := by
  rw [hl.cells, List.count_eq_zero.2 hc]
  cases g.cell? c <;> rfl

theorem Lent.cell_nil (hl : Lent g h []) (c : CellId) : h.cell? c = g.cell? c :=
  hl.cell_of_not_mem List.not_mem_nil

theorem lend_succ (x : Cell) (c : CellId) (cs : List CellId) :
    x.lend ((c :: cs).count c) =
      { x.lend (cs.count c) with refcount := (x.lend (cs.count c)).refcount + 1 } := by
  rw [List.count_cons_self]
  rfl

theorem Lent.recount (hl : Lent g h cs) (hc : g.cell? c = some x)
    (hother : ∀ d, d ≠ c → ds.count d = cs.count d) :
    Lent g (h.setCell c (some (x.lend (ds.count c)))) ds := by
  have hlt := lt_of_cell? (hl.cell hc)
  refine ⟨by simp [setCell, hl.size], hl.symbols, hl.loaded, fun d => ?_⟩
  rw [cell?_setCell]
  by_cases hd : c = d
  · subst hd
    rw [if_pos ⟨rfl, hlt⟩, hc]
    rfl
  · rw [if_neg fun e => hd e.1, hl.cells, hother d (Ne.symm hd)]

theorem Lent.run_retain (hl : Lent g h cs) (hc : g.cell? c = some x) :
    ∃ h', (retain c).run h = (.ok (), h') ∧ Lent g h' (c :: cs) := by
  refine ⟨_, Heap.run_retain (hl.cell hc), ?_⟩
  rw [← lend_succ]
  exact hl.recount hc fun d hd => List.count_cons_of_ne (Ne.symm hd)

theorem Lent.drop (hl : Lent g h (c :: cs)) (hc : g.cell? c = some x) (hx : 1 ≤ x.refcount)
    (depth : Nat) : Lent g (h.drop (depth + 1) c) cs := by
  have hcell := hl.cell hc
  rw [lend_succ] at hcell
  rw [drop_other hcell (Nat.lt_add_of_pos_left (Nat.lt_of_lt_of_le hx (Nat.le_add_right ..)))]
  exact hl.recount hc fun d hd => (List.count_cons_of_ne (Ne.symm hd)).symm

theorem Lent.run_release (hl : Lent g h (c :: cs)) (hc : g.cell? c = some x)
    (hx : 1 ≤ x.refcount) : ∃ h', (release c).run h = (.ok (), h') ∧ Lent g h' cs := by
  have hcell := hl.cell hc
  have hpos : 0 < h.cells.size := Nat.zero_lt_of_lt (lt_of_cell? hcell)
  obtain ⟨depth, hdepth⟩ := Nat.exists_eq_succ_of_ne_zero (Nat.ne_of_gt hpos)
  refine ⟨_, Heap.run_release (isLive_of_cell? hcell), ?_⟩
  rw [hdepth]
  exact hl.drop hc hx depth

theorem Lent.setCell (hl : Lent g h cs) (hc : c ∉ cs) (o : Option Cell) :
    Lent (g.setCell c o) (h.setCell c o) cs := by
  refine ⟨by simp [Heap.setCell, hl.size], hl.symbols, hl.loaded, fun x => ?_⟩
  rw [cell?_setCell, cell?_setCell, hl.size]
  split
  · next hx =>
    rw [← hx.1, List.count_eq_zero.2 hc]
    cases o <;> rfl
  · exact hl.cells x

theorem Lent.setContent (hl : Lent g h cs) (hc : g.cell? c = some x) (content : Content) :
    ∃ h', (setContent c content).run h = (.ok (), h') ∧
      Lent (g.setCell c (some { x with content })) h' cs := by
  have hcell := hl.cell hc
  refine ⟨_, run_bind_ok (by rw [run_query, cell_ok hcell]), ?_⟩
  refine ⟨by simp [Heap.setCell, hl.size], hl.symbols, hl.loaded, fun d => ?_⟩
  rw [cell?_setCell, cell?_setCell, hl.size]
  split
  · next hd =>
    rw [← hd.1]
    rfl
  · exact hl.cells d

theorem Lent.allocate (hl : Lent g h cs) (hlive : ∀ c ∈ cs, g.isLive c) (content : Content) :
    Lent (g.allocate content).2 (h.allocate content).2 cs := by
  refine ⟨by simp [Heap.allocate, hl.size], hl.symbols, hl.loaded, fun d => ?_⟩
  have hid : (h.allocate content).1 = (g.allocate content).1 := by simp [Heap.allocate, hl.size]
  rw [cell?_allocate, cell?_allocate, hid]
  split
  · next hd =>
    have hnot : d ∉ cs := fun hm => not_isLive_of_size_le (Nat.le_refl _) (hd ▸ hlive d hm)
    rw [List.count_eq_zero.2 hnot]
    rfl
  · exact hl.cells d

theorem Lent.quiet (hl : Lent g h cs) (hq : g.Quiet) : h.Quiet :=
  hq.of_scalars hl.symbols fun c s hs => by
    obtain ⟨x, hx, hcontent⟩ := scalar_eq_ok_iff.1 hs
    exact scalar_eq_ok_iff.2 ⟨_, hl.cell hx, hcontent⟩

/-! ## Copies -/

theorem run_takeValue_lent {s : Embedding.Scalar} (hc : h.cell? c = some x)
    (hcontent : x.content = .scalar s) (hlive : ∀ t ∈ s.ref.toList, h.isLive t) :
    ∃ h', (takeValue c).run h = (.ok s, h') ∧ Lent h h' s.ref.toList := by
  rw [takeValue_eq, run_bind_ok (by rw [run_query, cell_ok hc]), hcontent, contentValue]
  cases ht : s.ref with
  | none => exact ⟨h, rfl, lent_refl h⟩
  | some t =>
    obtain ⟨y, hy⟩ := exists_cell (hlive t (by simp [ht]))
    obtain ⟨h', hrun, hl⟩ := (lent_refl h).run_retain hy
    exact ⟨h', by rw [run_bind_ok hrun]; rfl, hl⟩

theorem run_copy_lent {s : Embedding.Scalar} (hc : h.cell? c = some x)
    (hcontent : x.content = .scalar s) (hlive : ∀ t ∈ s.ref.toList, h.isLive t) :
    ∃ h', (copy c).run h = (.ok ⟨h.cells.size⟩, h') ∧
      Lent (h.allocate (.scalar s)).2 h' s.ref.toList := by
  obtain ⟨h₀, htake, hl⟩ := run_takeValue_lent hc hcontent hlive
  refine ⟨(h₀.allocate (.scalar s)).2, ?_, hl.allocate hlive _⟩
  rw [copy, run_bind_ok htake, ← hl.size]
  rfl

/-- The last count of a cell is given back, and with it the counts that it has lent to others. -/
theorem Lent.run_free (hl : Lent g h x.content.children) (hc : g.cell? c = some x)
    (hx : x.refcount ≤ 1) (hself : c ∉ x.content.children)
    (hlive : ∀ d ∈ x.content.children, ∃ y, g.cell? d = some y ∧ 1 ≤ y.refcount) :
    ∃ h', (release c).run h = (.ok (), h') ∧ Lent (g.setCell c none) h' [] := by
  have hcell := (hl.cell_of_not_mem hself).trans hc
  have hsize := hl.size
  obtain ⟨depth, hdepth⟩ := Nat.exists_eq_add_of_lt (lt_of_cell? hcell)
  have hdrops : ∀ (ds : List CellId) (h : Heap), Lent (g.setCell c none) h ds →
      (∀ d ∈ ds, d ∈ x.content.children) →
      Lent (g.setCell c none) (ds.foldl (Heap.drop (c.index + depth)) h) [] := by
    intro ds
    induction ds with
    | nil => exact fun h hl _ => hl
    | cons d ds ih =>
      intro h hl hds
      have hmem := hds d (.head _)
      obtain ⟨y, hy, hcount⟩ := hlive d hmem
      have hne : c ≠ d := fun e => hself (e ▸ hmem)
      have hy' : (g.setCell c none).cell? d = some y := by
        rw [cell?_setCell, if_neg fun e => hne e.1, hy]
      -- two different numbers are below the size, so the depth is not used up
      obtain ⟨k, hk⟩ : ∃ k, c.index + depth = k + 1 := by
        refine Nat.exists_eq_succ_of_ne_zero fun hzero => hne ?_
        have hd := lt_of_cell? hy
        rw [← hsize, hdepth] at hd
        exact congrArg CellId.mk (show c.index = d.index by omega)
      rw [List.foldl_cons, hk]
      rw [hk] at ih
      exact ih _ (hl.drop hy' hcount k) fun e he => hds e (.tail _ he)
  refine ⟨_, Heap.run_release (isLive_of_cell? hcell), ?_⟩
  rw [show h.cells.size = c.index + depth + 1 from hdepth, drop_last hcell hx]
  exact hdrops _ _ (hl.setCell hself none) fun d hd => hd

end

end Heap

end Embedding
