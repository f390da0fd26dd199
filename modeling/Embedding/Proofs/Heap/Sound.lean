import Embedding.Proofs.Heap.Drop

/-!
# Sound heaps

A sound heap is exact, and each table names cells of its own sort. What an operation gives and takes
is said in stakes: the caller gives up the ones taken and owns the ones given.
-/

namespace Embedding

/-- The stakes in what an operation ended with: a death hands over the cell of its error. -/
def Fault.stakes (f : Fault) : List CellId := f.diedValue?.toList

namespace Heap

/-- The cells that a table names are of its sort, and there is a variable for the pending error. -/
structure WellNamed (h : Heap) : Prop where
  sorts : ∀ slot name c, h.symbol? slot name = some c →
    ∃ x, h.cell? c = some x ∧ x.content.slot? = some slot
  error : ∃ c, h.symbol? .scalar errorName = some c

structure Sound (h : Heap) (stakes : List CellId) : Prop where
  exact : h.Exact stakes
  named : h.WellNamed

/-- What time does to a heap: numbers are not used again, live cells keep their sorts, and variables
keep their cells. -/
structure Evolves (h h' : Heap) : Prop where
  size : h.cells.size ≤ h'.cells.size
  sorts : ∀ c x', h'.cell? c = some x' → c.index < h.cells.size →
    ∃ x, h.cell? c = some x ∧ x'.content.slot? = x.content.slot?
  symbols : ∀ slot name c, slot ≠ .code → h.symbol? slot name = some c →
    h'.symbol? slot name = some c

/-- `h'` has the live cells of `h` with other counts, and more. -/
structure Grows (h h' : Heap) : Prop where
  symbols : h'.symbols = h.symbols
  old : ∀ c x', h'.cell? c = some x' → c.index < h.cells.size → ∃ x, h.cell? c = some x
  cells : ∀ c x, h.cell? c = some x → ∃ n, h'.cell? c = some { x with refcount := n }
  size : h.cells.size ≤ h'.cells.size

section
variable {h h' h'' : Heap} {σ τ : List CellId} {c : CellId} {x : Cell}

theorem Evolves.refl (h : Heap) : h.Evolves h :=
  ⟨Nat.le_refl _, fun _ x hx _ => ⟨x, hx, rfl⟩, fun _ _ _ _ hs => hs⟩

theorem Evolves.trans (h₁ : h.Evolves h') (h₂ : h'.Evolves h'') : h.Evolves h'' where
  size := Nat.le_trans h₁.size h₂.size
  sorts c x'' hx'' hc := by
    obtain ⟨x', hx', hs'⟩ := h₂.sorts c x'' hx'' (Nat.lt_of_lt_of_le hc h₁.size)
    obtain ⟨x, hx, hs⟩ := h₁.sorts c x' hx' hc
    exact ⟨x, hx, hs'.trans hs⟩
  symbols slot name c hslot hs := h₂.symbols slot name c hslot (h₁.symbols slot name c hslot hs)

theorem Grows.refl (h : Heap) : h.Grows h :=
  ⟨rfl, fun _ x hx _ => ⟨x, hx⟩, fun _ x hx => ⟨x.refcount, hx⟩, Nat.le_refl _⟩

theorem Grows.trans (h₁ : h.Grows h') (h₂ : h'.Grows h'') : h.Grows h'' where
  symbols := h₂.symbols.trans h₁.symbols
  old c x'' hx'' hc := by
    obtain ⟨x', hx'⟩ := h₂.old c x'' hx'' (Nat.lt_of_lt_of_le hc h₁.size)
    exact h₁.old c x' hx' hc
  cells c x hx := by
    obtain ⟨n, hn⟩ := h₁.cells c x hx
    obtain ⟨m, hm⟩ := h₂.cells c _ hn
    exact ⟨m, hm⟩
  size := Nat.le_trans h₁.size h₂.size

theorem Grows.evolves (hg : h.Grows h') : h.Evolves h' where
  size := hg.size
  sorts c x' hx' hc := by
    obtain ⟨x, hx⟩ := hg.old c x' hx' hc
    obtain ⟨n, hn⟩ := hg.cells c x hx
    rw [hx'] at hn
    obtain rfl := Option.some.inj hn
    exact ⟨x, hx, rfl⟩
  symbols slot name c _ hs := by rwa [symbol?, hg.symbols]

theorem Grows.isLive (hg : h.Grows h') (hc : h.isLive c) : h'.isLive c := by
  obtain ⟨x, hx⟩ := Option.isSome_iff_exists.1 hc
  obtain ⟨n, hn⟩ := hg.cells c x hx
  exact isLive_of_cell? hn

theorem Shrinks.evolves (hs : h.Shrinks h') : h.Evolves h' where
  size := Nat.le_of_eq hs.size.symm
  sorts c x' hx' _ := by
    obtain ⟨x, hx, hcontent, -⟩ := hs.cells c x' hx'
    exact ⟨x, hx, by rw [hcontent]⟩
  symbols slot name c _ hn := by rwa [symbol?, hs.symbols]

theorem grows_allocate (h : Heap) (content : Content) : h.Grows (h.allocate content).2 where
  symbols := rfl
  old c x' hx' hc := by
    rw [cell?_allocate, if_neg fun e => by rw [e] at hc; exact Nat.lt_irrefl _ hc] at hx'
    exact ⟨x', hx'⟩
  cells c x hx := by
    have hc := lt_of_cell? hx
    rw [cell?_allocate, if_neg fun e => by rw [e] at hc; exact Nat.lt_irrefl _ hc]
    exact ⟨x.refcount, hx⟩
  size := by simp [allocate]

theorem grows_recount (hc : h.cell? c = some x) (n : Nat) :
    h.Grows (h.setCell c (some { x with refcount := n })) where
  symbols := rfl
  old d y hd _ := by
    obtain ⟨z, hz, -, -⟩ := (shrinks_recount hc n).cells d y hd
    exact ⟨z, hz⟩
  cells d y hd := by
    rw [cell?_setCell]
    split
    · next e =>
      obtain rfl : x = y := Option.some.inj (hc.symm.trans (e.1 ▸ hd))
      exact ⟨n, rfl⟩
    · exact ⟨y.refcount, hd⟩
  size := by simp [setCell]

theorem evolves_setContent (hc : h.cell? c = some x) {content : Content} {n : Nat}
    {package : Option String} (hs : content.slot? = x.content.slot?) :
    h.Evolves (h.setCell c (some ⟨n, package, content⟩)) where
  size := by simp [setCell]
  sorts d y hd _ := by
    rw [cell?_setCell] at hd
    split at hd
    · next e =>
      obtain rfl := Option.some.inj hd
      exact ⟨x, e.1 ▸ hc, hs⟩
    · exact ⟨y, hd, rfl⟩
  symbols _ _ _ _ hn := hn

/-! ## What keeps a heap sound -/

theorem mem_values_of_get? {α : Type} {d : Dict α} {key : String} {v : α}
    (hv : Dict.get? d key = some v) : v ∈ Dict.values d := by
  induction d with
  | nil => cases hv
  | cons p d ih =>
    obtain ⟨k, w⟩ := p
    simp only [Dict.get?] at hv
    split at hv
    · obtain rfl := Option.some.inj hv
      exact List.mem_cons_self ..
    · exact List.mem_cons_of_mem _ (ih hv)

theorem mem_places_of_symbol? {slot : Slot} {name : String} (hs : h.symbol? slot name = some c) :
    c ∈ h.places := by
  have := mem_values_of_get? hs
  refine List.mem_append_right _ ?_
  simp only [Symbols.cells, List.mem_append]
  cases slot <;> simp_all [Symbols.table]

theorem WellNamed.evolves (hn : h.WellNamed) (hev : h.Evolves h') (hsym : h'.symbols = h.symbols)
    (he : h'.Exact τ) : h'.WellNamed where
  sorts slot name c hs := by
    have hlive := he.held c (List.mem_append_left _ (mem_places_of_symbol? hs))
    obtain ⟨x', hx'⟩ := Option.isSome_iff_exists.1 hlive
    rw [symbol?, hsym] at hs
    obtain ⟨x, hx, hslot⟩ := hn.sorts slot name c hs
    obtain ⟨y, hy, hslot'⟩ := hev.sorts c x' hx' (lt_of_cell? hx)
    obtain rfl := Option.some.inj (hx.symm.trans hy)
    exact ⟨x', hx', hslot'.trans hslot⟩
  error := by
    obtain ⟨c, hc⟩ := hn.error
    exact ⟨c, by rwa [symbol?, hsym]⟩

theorem Sound.perm (hs : h.Sound σ) (hp : σ.Perm τ) : h.Sound τ := ⟨hs.exact.perm hp, hs.named⟩

theorem Sound.evolves (hs : h.Sound σ) (hev : h.Evolves h') (hsym : h'.symbols = h.symbols)
    (he : h'.Exact τ) : h'.Sound τ := ⟨he, hs.named.evolves hev hsym he⟩

theorem Sound.isLive (hs : h.Sound σ) (hc : c ∈ σ) : h.isLive c :=
  hs.exact.held c (List.mem_append_right _ hc)

theorem Exact.isLive_child (he : h.Exact σ) (hc : h.cell? c = some x) {d : CellId}
    (hd : d ∈ x.content.children) : h.isLive d :=
  he.held d (List.mem_append_left _ (mem_places_iff.2 (.inl ⟨c, x, hc, hd⟩)))

/-- What keeps a live cell: a stake, a name or another cell. -/
theorem Exact.holder (he : h.Exact σ) (hc : h.isLive c) : c ∈ σ ∨ c ∈ h.symbols.cells ∨
    ∃ d x, h.cell? d = some x ∧ c ∈ x.content.children := by
  obtain ⟨x, hx⟩ := Option.isSome_iff_exists.1 hc
  obtain ⟨hcount, hpos⟩ := he.counts c x hx
  have hmem := List.count_pos_iff.1 (Nat.lt_of_lt_of_eq hpos hcount)
  rcases List.mem_append.1 hmem with hplace | hstake
  · exact .inr (mem_places_iff.1 hplace).symm
  · exact .inl hstake

theorem Sound.isLive_child (hs : h.Sound σ) (hc : h.cell? c = some x) {d : CellId}
    (hd : d ∈ x.content.children) : h.isLive d := hs.exact.isLive_child hc hd

theorem Sound.allocate {content : Content} (hs : h.Sound (content.children ++ σ)) :
    (h.allocate content).2.Sound ((h.allocate content).1 :: σ) :=
  hs.evolves (grows_allocate h content).evolves rfl hs.exact.allocate

theorem Sound.retain (hs : h.Sound σ) (hc : h.cell? c = some x) :
    (h.setCell c (some { x with refcount := x.refcount + 1 })).Sound (c :: σ) :=
  hs.evolves (grows_recount hc _).evolves rfl (hs.exact.retain hc)

theorem Sound.drop (hs : h.Sound (c :: σ)) : (h.drop h.cells.size c).Sound σ :=
  hs.evolves (shrinks_drop _ h c).evolves (shrinks_drop _ h c).symbols hs.exact.drop

theorem Sound.setContent {content : Content} {package : Option String} (hs : h.Sound σ)
    (hc : h.cell? c = some x) (hslot : content.slot? = x.content.slot?)
    (hp : (content.children ++ τ).Perm (x.content.children ++ σ)) :
    (h.setCell c (some ⟨x.refcount, package, content⟩)).Sound τ :=
  hs.evolves (evolves_setContent hc hslot) rfl (hs.exact.setContent hc hp)

end

end Heap

end Embedding
