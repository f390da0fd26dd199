import Embedding.Proofs.Heap.Containers

/-!
# Stakes of symbols
-/

namespace Embedding

theorem Symbols.cells_define_perm (t : Symbols) (slot : Slot) (name : String) (c : CellId) :
    ((t.define slot name c).cells ++ ((t.table slot).get? name).toList).Perm (t.cells ++ [c]) := by
  have hins := Heap.values_insert_perm (t.table slot) name c
  refine List.perm_iff_count.2 fun a => ?_
  have := hins.count_eq a
  cases slot <;>
    simp only [Symbols.define, Symbols.table, Symbols.cells, List.count_append] at this ⊢ <;> omega

namespace Heap

variable {h h' : Heap} {σ : List CellId} {c : CellId} {x : Cell} {slot : Slot} {name : String}

def define (h : Heap) (slot : Slot) (name : String) (c : CellId) : Heap :=
  { h with symbols := h.symbols.define slot name c }

theorem symbol?_define (h : Heap) (slot slot' : Slot) (name name' : String) (c : CellId) :
    (h.define slot name c).symbol? slot' name' =
      if slot = slot' ∧ name = name' then some c else h.symbol? slot' name' := by
  simp only [symbol?, define, Symbols.table_define]
  by_cases hslot : slot = slot'
  · subst hslot
    by_cases hname : name = name' <;> simp [Dict.get?_insert, hname]
  · simp [hslot]

theorem Exact.define (slot : Slot) (name : String) (he : h.Exact (c :: σ)) :
    (h.define slot name c).Exact ((h.symbol? slot name).toList ++ σ) := by
  refine he.transfer (List.perm_iff_count.2 fun a => ?_) fun _ => rfl
  have := (h.symbols.cells_define_perm slot name c).count_eq a
  simp only [places, Heap.define, symbol?, List.count_append, List.count_cons, List.count_nil]
    at this ⊢
  omega

theorem evolves_define (hnew : slot = .code ∨ h.symbol? slot name = none) :
    h.Evolves (h.define slot name c) where
  size := Nat.le_refl _
  sorts _ y hd _ := ⟨y, hd, rfl⟩
  symbols slot' name' d hslot hd := by
    rw [symbol?_define]
    split
    · next e =>
      obtain ⟨rfl, rfl⟩ := e
      rcases hnew with rfl | hnew
      · exact absurd rfl hslot
      · rw [hnew] at hd; cases hd
    · exact hd

theorem Sound.define (slot : Slot) (name : String) (hs : h.Sound (c :: σ)) (hc : h.cell? c = some x)
    (hslot : x.content.slot? = some slot) :
    (h.define slot name c).Sound ((h.symbol? slot name).toList ++ σ) where
  exact := hs.exact.define slot name
  named := by
    refine ⟨fun slot' name' d hd => ?_, ?_⟩
    · rw [symbol?_define] at hd
      split at hd
      · next e =>
        obtain rfl := Option.some.inj hd
        exact ⟨x, hc, e.1 ▸ hslot⟩
      · exact hs.named.sorts slot' name' d hd
    · obtain ⟨d, hd⟩ := hs.named.error
      rw [symbol?_define]
      split
      · exact ⟨c, rfl⟩
      · exact ⟨d, hd⟩

theorem fresh?_children {content : Content} (hf : Content.fresh? slot = some content) :
    content.children = [] ∧ content.slot? = some slot ∧ slot ≠ .code := by
  cases slot <;> cases hf <;> exact ⟨rfl, rfl, by simp⟩

def declare (h : Heap) (slot : Slot) (name : String) (content : Content) : Heap :=
  (h.allocate content).2.define slot name (h.allocate content).1

theorem Sound.declare {content : Content} (hs : h.Sound σ)
    (hf : Content.fresh? slot = some content) (hnew : h.symbol? slot name = none) :
    (h.declare slot name content).Sound σ := by
  obtain ⟨hchildren, hslot, -⟩ := fresh?_children hf
  have hs' : (h.allocate content).2.Sound ((h.allocate content).1 :: σ) :=
    Sound.allocate (by rwa [hchildren])
  have := hs'.define slot name ((cell?_allocate ..).trans (if_pos rfl)) hslot
  rwa [show (h.allocate content).2.symbol? slot name = none from hnew] at this

theorem evolves_declare {content : Content} (hnew : h.symbol? slot name = none) :
    h.Evolves (h.declare slot name content) :=
  (grows_allocate h content).evolves.trans (evolves_define (.inr hnew))

theorem run_global_old (create : Bool) (hc : h.symbol? slot (Name.qualify name) = some c) :
    (global slot name create).run h = (do retain c; return some c : HeapM _).run h := by
  rw [global, run_get_bind, hc]

theorem run_global_new {content : Content} (hc : h.symbol? slot (Name.qualify name) = none)
    (hf : Content.fresh? slot = some content) :
    (global slot name true).run h =
      (do retain (h.allocate content).1; return some (h.allocate content).1 : HeapM _).run
        (h.declare slot (Name.qualify name) content) := by
  rw [global, run_get_bind, hc]
  simp only [if_true, hf]
  rfl

theorem run_global_none (hc : h.symbol? slot (Name.qualify name) = none) {create : Bool}
    (hf : (if create then Content.fresh? slot else none) = none) :
    (global slot name create).run h = (.ok none, h) := by
  rw [global, run_get_bind, hc]
  simp only [hf]
  rfl

/-- What stands for a name after it was asked for. -/
def Named (slot : Slot) (name : String) (o : Option CellId) (h : Heap) : Prop :=
  ∀ c, o = some c → h.symbol? slot (Name.qualify name) = some c

theorem global_spec (hs : h.Sound σ) (slot : Slot) (name : String) (create : Bool) : ∃ o h',
    (global slot name create).run h = (.ok o, h') ∧ h.Evolves h' ∧ h'.Sound (o.toList ++ σ) ∧
      Named slot name o h' ∧ (create = true → slot ≠ .code → o.isSome) := by
  cases hc : h.symbol? slot (Name.qualify name) with
  | some c =>
    obtain ⟨x, hx, -⟩ := hs.named.sorts _ _ _ hc
    refine ⟨some c, _, ?_, (grows_recount hx _).evolves, hs.retain hx, ?_, fun _ _ => rfl⟩
    · rw [run_global_old create hc, run_bind_ok (run_retain hx)]
      rfl
    · rintro d ⟨⟩
      exact hc
  | none =>
    cases hf : if create then Content.fresh? slot else none with
    | none =>
      refine ⟨none, h, run_global_none hc hf, .refl h, hs, fun _ h => (by cases h), ?_⟩
      rintro rfl hcode
      cases slot <;> first | exact (hcode rfl).elim | cases hf
    | some content =>
      obtain rfl : create = true := by cases create <;> simp_all
      have hs' := hs.declare hf hc
      have hcell : (h.declare slot (Name.qualify name) content).cell? (h.allocate content).1 =
          some ⟨1, none, content⟩ := (cell?_allocate ..).trans (if_pos rfl)
      refine ⟨some (h.allocate content).1, _, ?_,
        (evolves_declare hc).trans (grows_recount hcell _).evolves, hs'.retain hcell, ?_,
        fun _ _ => rfl⟩
      · rw [run_global_new hc hf, run_bind_ok (run_retain hcell)]
        rfl
      · rintro d ⟨⟩
        exact (symbol?_define ..).trans (if_pos ⟨rfl, rfl⟩)

theorem gives_global (h : Heap) (slot : Slot) (name : String) (create : Bool) :
    Gives (global slot name create) h [] Option.toList := fun _ hs => by
  obtain ⟨o, h', hrun, hev, hs', -⟩ := global_spec hs slot name create
  exact ⟨o, h', hrun, hev, hs'⟩

theorem gives_defineSub (h : Heap) (name : String) (body : NativeSub) :
    Gives (defineSub name body) h [] fun _ => [] := by
  intro σ hs
  have hs' : (h.allocate (.code (Name.qualify name) body)).2.Sound (_ :: σ) := Sound.allocate hs
  have hs'' := hs'.define .code (Name.qualify name) ((cell?_allocate ..).trans (if_pos rfl)) rfl
  obtain ⟨_, h', hrun, hev, hs₃⟩ := gives_releaseOption _ _ σ hs''
  exact ⟨(), h', hrun, ((grows_allocate h _).evolves.trans (evolves_define (.inl rfl))).trans hev, hs₃⟩

end Heap

end Embedding
