import Embedding.Proofs.Heap.Lent
import Embedding.Proofs.Heap.Trees

/-!
# Planting trees

Cells that are new to a heap leave its own cells alone. A container is filled with trees one after
another: each is made on its own, its scalar is copied into the container, and the original is
given back.
-/

namespace Embedding.Heap

/-- The cells of `base` are in `h` as they were. -/
structure Keeps (base h : Heap) : Prop where
  symbols : h.symbols = base.symbols
  loaded : h.loaded = base.loaded
  size : base.cells.size ≤ h.cells.size
  old : ∀ x, x.index < base.cells.size → h.cell? x = base.cell? x

/-- What `h` has besides the cells of `base` are the new cells `S`. -/
structure Adds (base h : Heap) (S : List CellId) : Prop extends Keeps base h where
  fresh : ∀ x ∈ S, base.cells.size ≤ x.index
  new : ∀ x, base.cells.size ≤ x.index → x ∉ S → h.cell? x = none

/-- What `h` has besides the cells of `base` is one tree. -/
structure Planted (base h : Heap) (v : Value) (c : CellId) (s : Embedding.Scalar)
    (T : List CellId) : Prop extends Adds base h (c :: T) where
  nodup : (c :: T).Nodup
  root : h.cell? c = some ⟨1, none, .scalar s⟩
  encodes : Encodes h v s T

/-- What `h` has besides the cells of `base` is a container with trees in it. -/
structure Filled (base h : Heap) (vs : List Value) (a : CellId) (content : Content)
    (T : List CellId) : Prop extends Adds base h (a :: T) where
  nodup : (a :: T).Nodup
  root : h.cell? a = some ⟨1, none, content⟩
  items : EncodesItems h vs content.children T

section
variable {base h h' h'' : Heap} {v : Value} {vs : List Value} {a c d : CellId}
  {s : Embedding.Scalar} {content content' : Content} {S T U : List CellId} {o : Option Cell}

/-! ## What is kept -/

theorem Keeps.trans (h₁ : h.Keeps h') (h₂ : h'.Keeps h'') : h.Keeps h'' where
  symbols := h₂.symbols.trans h₁.symbols
  loaded := h₂.loaded.trans h₁.loaded
  size := Nat.le_trans h₁.size h₂.size
  old x hx := (h₂.old x (Nat.lt_of_lt_of_le hx h₁.size)).trans (h₁.old x hx)

theorem Keeps.quiet (hk : base.Keeps h) (hq : base.Quiet) : h.Quiet :=
  hq.of_scalars hk.symbols fun c s hs => by
    obtain ⟨x, hx, hcontent⟩ := scalar_eq_ok_iff.1 hs
    exact scalar_eq_ok_iff.2 ⟨x, (hk.old c (lt_of_cell? hx)).trans hx, hcontent⟩

theorem keeps_allocate (h : Heap) (content : Content) : h.Keeps (h.allocate content).2 where
  symbols := rfl
  loaded := rfl
  size := by simp [allocate]
  old x hx := by
    rw [cell?_allocate, if_neg fun e => Nat.lt_irrefl _ (e ▸ hx)]

theorem Keeps.setCell (hk : base.Keeps h) (hc : base.cells.size ≤ c.index) (o : Option Cell) :
    base.Keeps (h.setCell c o) where
  symbols := hk.symbols
  loaded := hk.loaded
  size := by simpa [Heap.setCell] using hk.size
  old x hx := by
    rw [cell?_setCell, if_neg fun e : c = x ∧ _ => Nat.not_lt.2 hc (e.1 ▸ hx)]
    exact hk.old x hx

theorem Keeps.lent {cs : List CellId} (hk : base.Keeps h) (hl : Lent h h' cs)
    (hfresh : ∀ c ∈ cs, base.cells.size ≤ c.index) : base.Keeps h' where
  symbols := hl.symbols.trans hk.symbols
  loaded := hl.loaded.trans hk.loaded
  size := hl.size ▸ hk.size
  old x hx := by
    rw [hl.cell_of_not_mem fun hm => Nat.not_lt.2 (hfresh x hm) hx]
    exact hk.old x hx

theorem Adds.trans (h₁ : base.Adds h S) (h₂ : h.Adds h' T) : base.Adds h' (S ++ T) where
  toKeeps := h₁.toKeeps.trans h₂.toKeeps
  fresh x hx := by
    rcases List.mem_append.1 hx with hx | hx
    · exact h₁.fresh x hx
    · exact Nat.le_trans h₁.size (h₂.fresh x hx)
  new x hx hnot := by
    rw [List.mem_append, not_or] at hnot
    rcases Nat.lt_or_ge x.index h.cells.size with hlt | hge
    · rw [h₂.old x hlt]
      exact h₁.new x hx hnot.1
    · exact h₂.new x hge hnot.2

theorem Adds.perm (ha : base.Adds h S) (hp : ∀ x, x ∈ S ↔ x ∈ T) : base.Adds h T :=
  ⟨ha.toKeeps, fun x hx => ha.fresh x ((hp x).2 hx), fun x hx hnot =>
    ha.new x hx fun hm => hnot ((hp x).1 hm)⟩

theorem Adds.ne_of_lt (ha : base.Adds h S) {x y : CellId} (hx : x.index < base.cells.size)
    (hy : y ∈ S) : x ≠ y := fun e => Nat.not_lt.2 (ha.fresh y hy) (e ▸ hx)

/-- A tree that was there before a heap got new cells is still there, and apart from them. -/
theorem EncodesItems.disjoint {cs : List CellId} (he : EncodesItems h vs cs T) (ha : h.Adds h' U) :
    ∀ x ∈ T, ∀ y ∈ U, x ≠ y := fun x hx y hy => by
  obtain ⟨z, hz⟩ := exists_cell (he.live x hx)
  exact ha.ne_of_lt (lt_of_cell? hz) hy

/-! ## One more item -/

/-- The heap after the scalar of a tree was copied into a container, and the original was freed. -/
structure Moved (h h' : Heap) (a c d : CellId) (s : Embedding.Scalar) (content : Content) :
    Prop where
  symbols : h'.symbols = h.symbols
  loaded : h'.loaded = h.loaded
  size : h.cells.size < h'.cells.size
  new : d.index = h.cells.size
  cells : ∀ x, h'.cell? x = if x = d then some ⟨1, none, .scalar s⟩ else if x = c then none
    else if x = a then some ⟨1, none, content⟩ else h.cell? x

theorem Moved.other (hm : Moved h h' a c d s content) {x : CellId} (hd : x ≠ d) (hc : x ≠ c)
    (ha : x ≠ a) : h'.cell? x = h.cell? x := by
  rw [hm.cells, if_neg hd, if_neg hc, if_neg ha]

theorem Moved.ne (hm : Moved h h' a c d s content) {x : CellId} (hx : h.isLive x) : x ≠ d := by
  obtain ⟨y, hy⟩ := exists_cell hx
  rintro rfl
  exact Nat.lt_irrefl _ (hm.new ▸ lt_of_cell? hy)

theorem Adds.moved (hadds : base.Adds h S) (hm : Moved h h' a c d s content) (ha : a ∈ S)
    (hc : c ∈ S) (hT : ∀ x, x ∈ T ↔ x = d ∨ x ∈ S ∧ x ≠ c) : base.Adds h' T where
  symbols := hm.symbols.trans hadds.symbols
  loaded := hm.loaded.trans hadds.loaded
  size := Nat.le_of_lt (Nat.lt_of_le_of_lt hadds.size hm.size)
  old x hx := by
    have hd : x ≠ d := fun e => Nat.not_lt.2 hadds.size (hm.new ▸ e ▸ hx)
    rw [hm.other hd (hadds.ne_of_lt hx hc) (hadds.ne_of_lt hx ha)]
    exact hadds.old x hx
  fresh x hx := by
    rcases (hT x).1 hx with rfl | hx
    · exact hm.new ▸ hadds.size
    · exact hadds.fresh x hx.1
  new x hx hnot := by
    rw [hT, not_or] at hnot
    by_cases hxc : x = c
    · rw [hm.cells, if_neg hnot.1, if_pos hxc]
    · have hxS : x ∉ S := fun hm => hnot.2 ⟨hm, hxc⟩
      rw [hm.other hnot.1 hxc fun e => hxS (e ▸ ha)]
      exact hadds.new x hx hxS

theorem Filled.add (hf : Filled base h vs a content T) (hp : Planted h h' v c s U)
    (hm : Moved h' h'' a c d s content') (hchildren : content'.children = content.children ++ [d]) :
    Filled base h'' (vs ++ [v]) a content' (T ++ d :: U) := by
  obtain ⟨haT, hT⟩ := List.nodup_cons.1 hf.nodup
  obtain ⟨hcU, hU⟩ := List.nodup_cons.1 hp.nodup
  have ha : a.index < h.cells.size := lt_of_cell? hf.root
  -- the cells of the container, those of the tree and the new one are all different
  have hac : a ≠ c := hp.ne_of_lt ha (.head _)
  have haU : a ∉ U := fun hm => hp.ne_of_lt ha (.tail _ hm) rfl
  have hTU := hf.items.disjoint hp.toAdds
  have hold {x : CellId} (hx : h.isLive x) : x ≠ d := by
    obtain ⟨y, hy⟩ := exists_cell hx
    exact hm.ne (isLive_of_cell? ((hp.old x (lt_of_cell? hy)).trans hy))
  have had : a ≠ d := hold (isLive_of_cell? hf.root)
  have hdT : d ∉ T := fun hm => hold (hf.items.live d hm) rfl
  have hdU : d ∉ U := fun hd => hm.ne (hp.encodes.live d hd) rfl
  have hcd : c ≠ d := hm.ne (isLive_of_cell? hp.root)
  have hitems : EncodesItems h'' _ _ T := hf.items.frame_eq fun x hx => by
    obtain ⟨y, hy⟩ := exists_cell (hf.items.live x hx)
    rw [hm.other (fun e => hdT (e ▸ hx)) (hTU x hx c (.head _)) fun e => haT (e ▸ hx)]
    exact hp.old x (lt_of_cell? hy)
  have hitem : Encodes h'' v s U := hp.encodes.frame_eq fun x hx =>
    hm.other (fun e => hdU (e ▸ hx)) (fun e => hcU (e ▸ hx)) fun e => haU (e ▸ hx)
  refine ⟨(hf.toAdds.trans hp.toAdds).moved hm (by simp) (by simp) fun x => ?_, ?_, ?_, ?_⟩
  · have hxc : x = a ∨ x ∈ T ∨ x ∈ U → x ≠ c := by
      rintro (rfl | hx | hx) rfl
      · exact hac rfl
      · exact hTU x hx x (.head _) rfl
      · exact hcU hx
    simp only [List.mem_cons, List.mem_append]
    grind
  · simp only [List.nodup_cons, List.nodup_append, List.mem_cons, List.mem_append, not_or]
    refine ⟨⟨haT, had, haU⟩, hT, ⟨hdU, hU⟩, ?_⟩
    rintro x hx y (rfl | hy)
    · exact fun e => hdT (e ▸ hx)
    · exact hTU x hx y (.tail _ hy)
  · rw [hm.cells, if_neg had, if_neg hac, if_pos rfl]
  · have hd : h''.cell? d = some ⟨1, none, .scalar s⟩ := by rw [hm.cells, if_pos rfl]
    have hlast : EncodesItems h'' [v] [d] (d :: U ++ []) := .cons hd hitem .nil
    rw [List.append_nil] at hlast
    rw [hchildren]
    exact hitems.append hlast

/-! ## Storing -/

/-- What the scalar of a tree refers to has a count of its own. -/
theorem Encodes.target (he : Encodes h v s T) : ∀ t ∈ s.ref, t ∈ T ∧
    ∃ content, h.cell? t = some ⟨1, none, content⟩ := by
  intro t ht
  cases he with
  | leaf hs => rw [Value.scalar?_ref hs] at ht; cases ht
  | list ha _ => cases ht; exact ⟨.head _, _, ha⟩
  | mapping ha _ _ => cases ht; exact ⟨.head _, _, ha⟩

theorem cell?_move (ha : a.index < h.cells.size) (hc : c.index < h.cells.size)
    (content : Content) (o : Option Cell) (x : CellId) :
    (((h.allocate content).2.setCell a o).setCell c none).cell? x =
      if x = ⟨h.cells.size⟩ then some ⟨1, none, content⟩ else if x = c then none
      else if x = a then o else h.cell? x := by
  have hsize : ((h.allocate content).2.setCell a o).cells.size = h.cells.size + 1 := by
    simp [setCell, allocate]
  have hcd : c ≠ ⟨h.cells.size⟩ := fun e => Nat.lt_irrefl _ (e ▸ hc)
  have had : a ≠ ⟨h.cells.size⟩ := fun e => Nat.lt_irrefl _ (e ▸ ha)
  rw [cell?_setCell, cell?_setCell, cell?_allocate, hsize]
  by_cases hxc : x = c
  · rw [if_pos ⟨hxc.symm, Nat.lt_succ_of_lt hc⟩, if_neg (hxc ▸ hcd), if_pos hxc]
  · rw [if_neg fun e => hxc e.1.symm]
    by_cases hxa : x = a
    · rw [if_pos ⟨hxa.symm, by simp [allocate]; omega⟩, if_neg (hxa ▸ had), if_neg hxc, if_pos hxa]
    · rw [if_neg fun e => hxa e.1.symm, if_neg hxc, if_neg hxa]
      rfl

/-- A tree is moved into a container: a copy of its scalar goes there, and then the original goes. -/
theorem Filled.run_move (hf : Filled base h vs a content T) (hp : Planted h h' v c s U) :
    ∃ h₁, (copy c).run h' = (.ok ⟨h'.cells.size⟩, h₁) ∧ h₁.cell? a = some ⟨1, none, content⟩ ∧
      ∀ content', ∃ h₂ h₃, (setContent a content').run h₁ = (.ok (), h₂) ∧ base.Keeps h₂ ∧
        (release c).run h₂ = (.ok (), h₃) ∧ Moved h' h₃ a c ⟨h'.cells.size⟩ s content' := by
  obtain ⟨hcU, -⟩ := List.nodup_cons.1 hp.nodup
  have ha : a.index < h.cells.size := lt_of_cell? hf.root
  have hroot := (hp.old a ha).trans hf.root
  have hac : a ≠ c := hp.ne_of_lt ha (.head _)
  have htarget : ∀ t ∈ s.ref.toList, t ∈ U ∧ ∃ content, h'.cell? t = some ⟨1, none, content⟩ :=
    fun t ht => hp.encodes.target t (Option.mem_toList.1 ht)
  have haref : a ∉ s.ref.toList := fun hm => hp.ne_of_lt ha (.tail _ (htarget a hm).1) rfl
  have hcref : c ∉ s.ref.toList := fun hm => hcU (htarget c hm).1
  obtain ⟨h₁, hcopy, hcopied⟩ := run_copy_lent hp.root rfl fun t ht =>
    hp.encodes.live t (htarget t ht).1
  have hkeeps := keeps_allocate h' (.scalar s)
  have hroot' := (hkeeps.old a (lt_of_cell? hroot)).trans hroot
  refine ⟨h₁, hcopy, (hcopied.cell_of_not_mem haref).trans hroot', fun content' => ?_⟩
  obtain ⟨h₂, hset, hstored⟩ := hcopied.setContent hroot' content'
  have hcell {x : CellId} {y : Cell} (hx : x ≠ a) (hy : h'.cell? x = some y) :
      ((h'.allocate (.scalar s)).2.setCell a (some ⟨1, none, content'⟩)).cell? x = some y := by
    rw [cell?_setCell, if_neg fun e => hx e.1.symm, hkeeps.old x (lt_of_cell? hy), hy]
  obtain ⟨h₃, hrelease, hfreed⟩ := hstored.run_free (x := ⟨1, none, .scalar s⟩)
    (hcell hac.symm hp.root) (Nat.le_refl 1) hcref fun t ht => by
      obtain ⟨content, hcontent⟩ := (htarget t ht).2
      exact ⟨_, hcell (fun e => haref (e ▸ ht)) hcontent, Nat.le_refl 1⟩
  refine ⟨h₂, h₃, hset, ?_, hrelease, ⟨hfreed.symbols, hfreed.loaded, ?_, rfl, fun x => ?_⟩⟩
  · have hbase := (hf.toKeeps.trans hp.toKeeps).trans hkeeps
    exact (hbase.setCell (hf.fresh a (.head _)) _).lent hstored fun t ht =>
      Nat.le_trans hf.size (hp.fresh t (.tail _ (htarget t ht).1))
  · simp [hfreed.size, setCell, allocate]
  · rw [hfreed.cell_nil]
    exact cell?_move (lt_of_cell? hroot) (lt_of_cell? hp.root) _ _ x

theorem run_arrayStore_end {items : Array CellId} {h₁ : Heap} (hitems : h.items a = .ok items)
    (hcopy : (copy c).run h = (.ok d, h₁)) (hitems' : h₁.items a = .ok items) :
    (arrayStore a items.size c).run h = (setContent a (.array (items.push d))).run h₁ := by
  have hfill : (allocUndefs (items.size - items.size)).run h₁ = (.ok [], h₁) := by
    rw [Nat.sub_self]
    have : ({ h₁ with cells := h₁.cells ++ #[] } : Heap) = h₁ := by rw [Array.append_empty]
    exact congrArg (fun h => (Except.ok [], h)) this
  rw [arrayStore_eq, run_bind_ok (by rw [run_query, arrayLength_ok hitems]), run_bind_ok hcopy,
    run_bind_ok hfill, run_bind_ok (by rw [run_query, hitems']), place]
  simp

theorem insert_of_get?_none {α : Type} {entries : Dict α} {key : String} (value : α)
    (hkey : Dict.get? entries key = none) : Dict.insert entries key value = entries ++ [(key, value)] := by
  induction entries with
  | nil => rfl
  | cons p entries ih =>
    obtain ⟨k, w⟩ := p
    rw [Dict.get?] at hkey
    split at hkey
    · cases hkey
    · next hk => rw [Dict.insert, if_neg hk, ih hkey, List.cons_append]

theorem run_hashStore_new {entries : Dict CellId} {cursor : Nat} {key : String} {h₁ : Heap}
    (hhash : h.hash a = .ok (entries, cursor)) (hcopy : (copy c).run h = (.ok d, h₁))
    (hhash' : h₁.hash a = .ok (entries, cursor)) (hkey : entries.get? key = none) :
    (hashStore a key c).run h = (setContent a (.hash (entries ++ [(key, d)]) cursor)).run h₁ := by
  rw [hashStore_eq, run_bind_ok (by rw [run_query, hhash]), run_bind_ok hcopy,
    run_bind_ok (by rw [run_query, hhash'])]
  dsimp only
  rw [hkey, insert_of_get?_none d hkey]
  exact congrArg (fun x : HeapM Unit => x.run h₁) (bind_pure (setContent a _))

/-! ## First and last -/

theorem adds_allocate (h : Heap) (content : Content) :
    h.Adds (h.allocate content).2 [⟨h.cells.size⟩] where
  toKeeps := keeps_allocate h content
  fresh x hx := Nat.le_of_eq (congrArg CellId.index (List.mem_singleton.1 hx)).symm
  new x hx hnot := by
    have hne : x ≠ (h.allocate content).1 := fun e => hnot (List.mem_singleton.2 e)
    rw [cell?_allocate, if_neg hne]
    exact cell?_size_le h hx

theorem cell?_new (h : Heap) (content : Content) :
    (h.allocate content).2.cell? ⟨h.cells.size⟩ = some ⟨1, none, content⟩ := by
  rw [cell?_allocate]
  exact if_pos rfl

theorem planted_leaf (h : Heap) (hs : v.scalar? = some s) :
    h.Planted (h.allocate (.scalar s)).2 v ⟨h.cells.size⟩ s [] :=
  ⟨adds_allocate h _, by simp, cell?_new h _, .leaf hs⟩

theorem filled_empty (h : Heap) (content : Content) (hcontent : content.children = []) :
    h.Filled (h.allocate content).2 [] ⟨h.cells.size⟩ content [] :=
  ⟨adds_allocate h _, by simp, cell?_new h _, by rw [hcontent]; exact .nil⟩

theorem Adds.lent_nil (ha : base.Adds h S) (hl : Lent h h' []) : base.Adds h' S :=
  ⟨ha.toKeeps.lent hl nofun, ha.fresh, fun x hx hnot => by rw [hl.cell_nil, ha.new x hx hnot]⟩

theorem Planted.lent_nil (hp : base.Planted h v c s T) (hl : Lent h h' []) :
    base.Planted h' v c s T :=
  ⟨hp.toAdds.lent_nil hl, hp.nodup, (hl.cell_nil c).trans hp.root,
    hp.encodes.frame_eq fun x _ => hl.cell_nil x⟩

theorem Filled.run_newRef (hf : base.Filled h vs a content T)
    (hencodes : ∀ {h'}, h'.cell? a = some ⟨1, none, content⟩ →
      EncodesItems h' vs content.children T → Encodes h' v (.ofRef a) (a :: T)) :
    ∃ h₁ h₂, (newRef a).run h = (.ok ⟨h.cells.size⟩, h₁) ∧ base.Keeps h₁ ∧
      (release a).run h₁ = (.ok (), h₂) ∧
      base.Planted h₂ v ⟨h.cells.size⟩ (.ofRef a) (a :: T) := by
  have hlive : ∀ x ∈ a :: T, h.isLive x := fun x hx => by
    rcases List.mem_cons.1 hx with rfl | hx
    · exact isLive_of_cell? hf.root
    · exact hf.items.live x hx
  obtain ⟨h₀, hretain, hlent⟩ := (lent_refl h).run_retain hf.root
  have hlent' := hlent.allocate (fun x hx => hlive x (List.mem_singleton.1 hx ▸ .head _))
    (.scalar (.ofRef a))
  have hkeeps := keeps_allocate h (.scalar (.ofRef a))
  have hsame {x} (hx : x ∈ a :: T) : (h.allocate (.scalar (.ofRef a))).2.cell? x = h.cell? x := by
    obtain ⟨y, hy⟩ := exists_cell (hlive x hx)
    exact hkeeps.old x (lt_of_cell? hy)
  have hroot := (hsame (.head _)).trans hf.root
  obtain ⟨h₂, hrelease, hback⟩ := hlent'.run_release hroot (Nat.le_refl 1)
  refine ⟨(h₀.allocate (.scalar (.ofRef a))).2, h₂, ?_, ?_, hrelease, Planted.lent_nil ?_ hback⟩
  · rw [newRef, run_bind_ok hretain, ← hlent.size]
    rfl
  · exact (hf.toKeeps.trans hkeeps).lent hlent' fun x hx =>
      List.mem_singleton.1 hx ▸ hf.fresh a (.head _)
  · refine ⟨(hf.toAdds.trans (adds_allocate h _)).perm fun x => ?_, ?_, cell?_new h _,
      hencodes hroot (hf.items.frame_eq fun x hx => hsame (.tail _ hx))⟩
    · simp only [List.mem_append, List.mem_cons, List.not_mem_nil, or_false]
      exact or_comm
    · refine List.nodup_cons.2 ⟨fun hm => ?_, hf.nodup⟩
      exact not_isLive_of_size_le (Nat.le_refl _) (hlive _ hm)

end

end Embedding.Heap
