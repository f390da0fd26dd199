import Embedding.Host.Value
import Embedding.Proofs.Heap.Quiet

/-!
# Trees of cells

Plain data is stored as a tree of cells: a scalar, or a reference to a container whose items are
trees in turn. Every cell of a tree has one count, so that the tree is freed as a whole.
-/

namespace Embedding

namespace Value

mutual

/-- Whether a value is data without views, in which no mapping repeats a key. -/
def Plain : Value → Prop
  | .list items => PlainItems items
  | .mapping entries => (Dict.keys entries).Nodup ∧ PlainEntries entries
  | .array _ | .hash _ | .callable _ | .object _ => False
  | .nothing | .bool _ | .int _ | .float _ | .text _ | .bytes _ => True

def PlainItems : List Value → Prop
  | [] => True
  | v :: vs => Plain v ∧ PlainItems vs

def PlainEntries : List (String × Value) → Prop
  | [] => True
  | (_, v) :: entries => Plain v ∧ PlainEntries entries

end

mutual

def height : Value → Nat
  | .list items => heightOfItems items + 1
  | .mapping entries => heightOfEntries entries + 1
  | .array _ | .hash _ | .callable _ | .object _ | .nothing | .bool _ | .int _ | .float _ | .text _
  | .bytes _ => 0

def heightOfItems : List Value → Nat
  | [] => 0
  | v :: vs => max (height v) (heightOfItems vs)

def heightOfEntries : List (String × Value) → Nat
  | [] => 0
  | (_, v) :: entries => max (height v) (heightOfEntries entries)

end

/-- The scalar of a value that has no parts. -/
def scalar? : Value → Option Scalar
  | .nothing => some .undef
  | .bool b => some (.ofBool b)
  | .int n => some (.ofInt n)
  | .float x => some (.ofNum x)
  | .text s => some (.ofBytes (Utf8.encode s) true)
  | .bytes bs => some (.ofBytes bs false)
  | _ => none

theorem scalar?_ref {v : Value} {s : Scalar} (hs : v.scalar? = some s) : s.ref = none := by
  cases v <;> cases hs <;> rfl

end Value

namespace Heap

mutual

/-- The scalar has the value, by way of the cells `T`. -/
inductive Encodes (h : Heap) : Value → Embedding.Scalar → (T : List CellId) → Prop
  | leaf {v s} : v.scalar? = some s → Encodes h v s []
  | list {items a cs T} : h.cell? a = some ⟨1, none, .array cs⟩ →
    EncodesItems h items cs.toList T → Encodes h (.list items) (.ofRef a) (a :: T)
  | mapping {entries a d cursor T} : h.cell? a = some ⟨1, none, .hash d cursor⟩ →
    Dict.keys d = Dict.keys entries → EncodesItems h (Dict.values entries) (Dict.values d) T →
    Encodes h (.mapping entries) (.ofRef a) (a :: T)

/-- The cells are scalars that have the values. -/
inductive EncodesItems (h : Heap) : List Value → List CellId → (T : List CellId) → Prop
  | nil : EncodesItems h [] [] []
  | cons {v vs c cs s T U} : h.cell? c = some ⟨1, none, .scalar s⟩ → Encodes h v s T →
    EncodesItems h vs cs U → EncodesItems h (v :: vs) (c :: cs) (c :: T ++ U)

end

/-- Nothing but the place of an iteration has changed in the cell. -/
def SameCell (o o' : Option Cell) : Prop :=
  o' = o ∨ ∃ n p d i j, o = some ⟨n, p, .hash d i⟩ ∧ o' = some ⟨n, p, .hash d j⟩

section
variable {h h' : Heap} {v : Value} {vs us : List Value} {s : Embedding.Scalar}
  {c a : CellId} {cs ds T U : List CellId}

theorem SameCell.refl (o : Option Cell) : SameCell o o := .inl rfl

theorem SameCell.trans {o o' o'' : Option Cell} (h₁ : SameCell o o') (h₂ : SameCell o' o'') :
    SameCell o o'' := by
  rcases h₁ with rfl | ⟨n, p, d, i, j, rfl, rfl⟩
  · exact h₂
  · rcases h₂ with rfl | ⟨n', p', d', i', j', h₂, rfl⟩
    · exact .inr ⟨n, p, d, i, j, rfl, rfl⟩
    · cases h₂
      exact .inr ⟨n, p, d, i, j', rfl, rfl⟩

theorem SameCell.of_not_hash {o o' : Option Cell} {x : Cell} (ho : SameCell o o') (hx : o = some x)
    (hcontent : ∀ d i, x.content ≠ .hash d i) : o' = some x := by
  rcases ho with rfl | ⟨n, p, d, i, j, rfl, -⟩
  · exact hx
  · cases hx
    exact absurd rfl (hcontent d i)

theorem SameCell.of_scalar {o o' : Option Cell} {n : Nat} {p : Option String} {x : Embedding.Scalar}
    (ho : SameCell o o') (hx : o = some ⟨n, p, .scalar x⟩) : o' = some ⟨n, p, .scalar x⟩ :=
  ho.of_not_hash hx fun _ _ h => by cases h

theorem SameCell.of_array {o o' : Option Cell} {n : Nat} {p : Option String} {items : Array CellId}
    (ho : SameCell o o') (hx : o = some ⟨n, p, .array items⟩) : o' = some ⟨n, p, .array items⟩ :=
  ho.of_not_hash hx fun _ _ h => by cases h

theorem SameCell.of_hash {o o' : Option Cell} {n : Nat} {p : Option String} {d : Dict CellId}
    {i : Nat} (ho : SameCell o o') (hx : o = some ⟨n, p, .hash d i⟩) :
    ∃ j, o' = some ⟨n, p, .hash d j⟩ := by
  rcases ho with rfl | ⟨n', p', d', i', j, rfl, rfl⟩
  · exact ⟨i, hx⟩
  · cases hx
    exact ⟨j, rfl⟩

/-! ## Frames -/

mutual

/-- What a tree has for its value does not depend on other cells, nor on where iterations are. -/
theorem Encodes.frame : ∀ {v s T}, Encodes h v s T →
    (∀ x ∈ T, SameCell (h.cell? x) (h'.cell? x)) → Encodes h' v s T
  | _, _, _, .leaf hs, _ => .leaf hs
  | _, _, _, .list ha hitems, hsame =>
    .list ((hsame _ (.head _)).of_array ha)
      (hitems.frame fun x hx => hsame x (.tail _ hx))
  | _, _, _, .mapping ha hkeys hitems, hsame => by
    obtain ⟨j, hj⟩ := (hsame _ (.head _)).of_hash ha
    exact .mapping hj hkeys (hitems.frame fun x hx => hsame x (.tail _ hx))

theorem EncodesItems.frame : ∀ {vs cs T}, EncodesItems h vs cs T →
    (∀ x ∈ T, SameCell (h.cell? x) (h'.cell? x)) → EncodesItems h' vs cs T
  | _, _, _, .nil, _ => .nil
  | _, _, _, .cons hc hv hvs, hsame =>
    .cons ((hsame _ (.head _)).of_scalar hc)
      (hv.frame fun x hx => hsame x (.tail _ (List.mem_append_left _ hx)))
      (hvs.frame fun x hx => hsame x (.tail _ (List.mem_append_right _ hx)))

end

theorem Encodes.frame_eq (he : Encodes h v s T) (hsame : ∀ x ∈ T, h'.cell? x = h.cell? x) :
    Encodes h' v s T := he.frame fun x hx => .inl (hsame x hx)

theorem EncodesItems.frame_eq (he : EncodesItems h vs cs T)
    (hsame : ∀ x ∈ T, h'.cell? x = h.cell? x) : EncodesItems h' vs cs T :=
  he.frame fun x hx => .inl (hsame x hx)

mutual

theorem Encodes.live : ∀ {v s T}, Encodes h v s T → ∀ x ∈ T, h.isLive x
  | _, _, _, .list ha hitems, x, hx => by
    rcases List.mem_cons.1 hx with rfl | hx
    · exact isLive_of_cell? ha
    · exact hitems.live x hx
  | _, _, _, .mapping ha _ hitems, x, hx => by
    rcases List.mem_cons.1 hx with rfl | hx
    · exact isLive_of_cell? ha
    · exact hitems.live x hx

theorem EncodesItems.live : ∀ {vs cs T}, EncodesItems h vs cs T → ∀ x ∈ T, h.isLive x
  | _, _, _, .cons hc hv hvs, x, hx => by
    rcases List.mem_cons.1 hx with rfl | hx
    · exact isLive_of_cell? hc
    · rcases List.mem_append.1 hx with hx | hx
      · exact hv.live x hx
      · exact hvs.live x hx

end

theorem EncodesItems.append (hvs : EncodesItems h vs cs T) (hus : EncodesItems h us ds U) :
    EncodesItems h (vs ++ us) (cs ++ ds) (T ++ U) := by
  induction vs generalizing cs T with
  | nil =>
    cases hvs
    exact hus
  | cons v vs ih =>
    cases hvs with
    | cons hc hv hvs =>
      have := EncodesItems.cons hc hv (ih hvs)
      rwa [List.cons_append, List.append_assoc]

/-! ## Iterations -/

/-- Nothing but the places of iterations in the cells `S` has changed. -/
structure Turned (S : List CellId) (h h' : Heap) : Prop where
  size : h'.cells.size = h.cells.size
  symbols : h'.symbols = h.symbols
  loaded : h'.loaded = h.loaded
  same : ∀ x, SameCell (h.cell? x) (h'.cell? x)
  outside : ∀ x, x ∉ S → h'.cell? x = h.cell? x

theorem Turned.refl (S : List CellId) (h : Heap) : Turned S h h :=
  ⟨rfl, rfl, rfl, fun _ => .refl _, fun _ _ => rfl⟩

theorem Turned.trans {h'' : Heap} (h₁ : Turned T h h') (h₂ : Turned T h' h'') : Turned T h h'' where
  size := h₂.size.trans h₁.size
  symbols := h₂.symbols.trans h₁.symbols
  loaded := h₂.loaded.trans h₁.loaded
  same x := (h₁.same x).trans (h₂.same x)
  outside x hx := (h₂.outside x hx).trans (h₁.outside x hx)

theorem Turned.mono (ht : Turned T h h') (hTU : ∀ x ∈ T, x ∈ U) : Turned U h h' :=
  { ht with outside := fun x hx => ht.outside x fun hm => hx (hTU x hm) }

theorem Turned.quiet (ht : Turned T h h') (hq : h.Quiet) : h'.Quiet :=
  hq.of_scalars ht.symbols fun c s hs => by
    obtain ⟨x, hx, hcontent⟩ := scalar_eq_ok_iff.1 hs
    have hx' := (ht.same c).of_not_hash hx fun d i e => by rw [hcontent] at e; cases e
    exact scalar_eq_ok_iff.2 ⟨x, hx', hcontent⟩

theorem turned_setCell {n : Nat} {p : Option String} {d : Dict CellId} {i : Nat}
    (ha : h.cell? a = some ⟨n, p, .hash d i⟩) (j : Nat) :
    Turned [a] h (h.setCell a (some ⟨n, p, .hash d j⟩)) where
  size := by simp [setCell]
  symbols := rfl
  loaded := rfl
  same x := by
    rw [cell?_setCell]
    split
    · next hx => exact .inr ⟨n, p, d, i, j, hx.1 ▸ ha, rfl⟩
    · exact .refl _
  outside x hx := by
    rw [cell?_setCell, if_neg fun e => hx (List.mem_singleton.2 e.1.symm)]

/-! ## Freeing a tree -/

/-- The cells of `S` are freed, and the others are as before. -/
def Freed (S : List CellId) (h h' : Heap) : Prop :=
  ∀ x, h'.cell? x = if x ∈ S then none else h.cell? x

theorem Freed.nil (h : Heap) : Freed [] h h := fun x => by simp

theorem Freed.append {h'' : Heap} (h₁ : Freed T h h') (h₂ : Freed U h' h'') :
    Freed (T ++ U) h h'' := fun x => by
  rw [h₂, h₁]
  by_cases hT : x ∈ T <;> by_cases hU : x ∈ U <;> simp [hT, hU]

theorem Freed.of_not_mem (hf : Freed T h h') {x : CellId} (hx : x ∉ T) : h'.cell? x = h.cell? x := by
  rw [hf, if_neg hx]

theorem freed_setCell {x : Cell} (hc : h.cell? c = some x) : Freed [c] h (h.setCell c none) := by
  intro y
  have hlt := lt_of_cell? hc
  rw [cell?_setCell]
  by_cases hy : c = y
  · simp [← hy, hlt]
  · simp [hy, Ne.symm hy]

theorem length_le_size (hnodup : T.Nodup) (hlive : ∀ x ∈ T, h.isLive x) :
    T.length ≤ h.cells.size := by
  have hsub : T ⊆ (List.range h.cells.size).map CellId.mk := fun x hx => by
    obtain ⟨y, hy⟩ := exists_cell (hlive x hx)
    exact List.mem_map.2 ⟨x.index, List.mem_range.2 (lt_of_cell? hy), rfl⟩
  simpa using hnodup.length_le_of_subset hsub

/-- What is freed when the last count of a tree is given back: all its cells, and no others. -/
def Frees (depth : Nat) : Prop := ∀ {h v s T c}, Encodes h v s T →
  h.cell? c = some ⟨1, none, .scalar s⟩ → (c :: T).Nodup → T.length < depth →
  Freed (c :: T) h (h.drop depth c)

theorem freed_items {depth : Nat} (hfrees : Frees depth) : ∀ {h vs cs T}, EncodesItems h vs cs T →
    T.Nodup → T.length ≤ depth → Freed T h (cs.foldl (drop depth) h)
  | h, _, _, _, .nil, _, _ => .nil h
  | h, _, _, _, .cons hc hv hvs, hnodup, hlength => by
    obtain ⟨hleft, hright, hdisjoint⟩ := List.nodup_append.1 hnodup
    rw [List.length_append, List.length_cons] at hlength
    have hfirst := hfrees hv hc hleft (by omega)
    have hrest := hvs.frame_eq fun x hx => hfirst.of_not_mem fun hm => hdisjoint x hm x hx rfl
    exact hfirst.append (freed_items hfrees hrest hright (by omega))

/-- The reference goes first, the container next, and its items are trees of their own. -/
theorem freed_reference {depth : Nat} {content : Content} (hfrees : Frees depth)
    (hc : h.cell? c = some ⟨1, none, .scalar (.ofRef a)⟩)
    (ha : h.cell? a = some ⟨1, none, content⟩) (hitems : EncodesItems h vs content.children T)
    (hnodup : (c :: a :: T).Nodup) (hlength : T.length ≤ depth) :
    Freed (c :: a :: T) h (h.drop (depth + 2) c) := by
  obtain ⟨hcT, hnodup⟩ := List.nodup_cons.1 hnodup
  obtain ⟨haT, hnodup⟩ := List.nodup_cons.1 hnodup
  have hroot := freed_setCell hc
  have hother {x} (hx : x ∈ a :: T) : (h.setCell c none).cell? x = h.cell? x :=
    hroot.of_not_mem fun hm => hcT (List.mem_singleton.1 hm ▸ hx)
  have ha' := (hother (.head _)).trans ha
  have hcontainer := freed_setCell ha'
  have hitems' := (hitems.frame_eq fun x hx => hother (.tail _ hx)).frame_eq fun x hx =>
    hcontainer.of_not_mem fun hm => haT (List.mem_singleton.1 hm ▸ hx)
  rw [drop_last hc (Nat.le_refl 1)]
  change Freed _ h ((h.setCell c none).drop (depth + 1) a)
  rw [drop_last ha' (Nat.le_refl 1)]
  exact hroot.append (hcontainer.append (freed_items hfrees hitems' hnodup hlength))

theorem frees : ∀ depth, Frees depth
  | depth + 1, _, _, _, _, _, .leaf hs, hc, _, _ => by
    rw [drop_last hc (Nat.le_refl 1), Content.children, Value.scalar?_ref hs]
    exact freed_setCell hc
  | depth + 2, _, _, _, _, _, .list ha hitems, hc, hnodup, hlength =>
    freed_reference (frees depth) hc ha hitems hnodup (by simp at hlength; omega)
  | depth + 2, _, _, _, _, _, .mapping ha _ hitems, hc, hnodup, hlength =>
    freed_reference (frees depth) hc ha hitems hnodup (by simp at hlength; omega)

theorem Encodes.run_release (he : Encodes h v s T) (hc : h.cell? c = some ⟨1, none, .scalar s⟩)
    (hnodup : (c :: T).Nodup) :
    ∃ h', (release c).run h = (.ok (), h') ∧ Freed (c :: T) h h' ∧ h.Shrinks h' := by
  have hlength : (c :: T).length ≤ h.cells.size := length_le_size hnodup fun x hx => by
    rcases List.mem_cons.1 hx with rfl | hx
    · exact isLive_of_cell? hc
    · exact he.live x hx
  exact ⟨_, Heap.run_release (isLive_of_cell? hc), frees _ he hc hnodup hlength, shrinks_drop _ h c⟩

end

end Heap

end Embedding
