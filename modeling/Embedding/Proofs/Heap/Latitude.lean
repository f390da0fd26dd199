import Embedding.Proofs.Heap.Firm
import Embedding.Proofs.Heap.Requests
import Embedding.Proofs.Heap.Values

/-!
# What operations may change

All that happens to a heap is made of a few changes of one cell, or of the tables. An invariant that goes
on through these goes on through every operation, call and request, as far as nothing is done for which
there is no latitude.
-/

namespace Embedding

variable {α β : Type}

/-- All bodies that a setup can bring into a heap have the property. -/
structure Setup.AllBodies (setup : Setup) (B : NativeSub → Prop) : Prop where
  isa : B Universal.isa
  can : B Universal.can
  subs : ∀ name p, setup.provided.get? name = some p → ∀ sub ∈ p.subs, B sub.2
  evaluator : ∀ evaluator, setup.evaluator = some evaluator → ∀ source, B (evaluator source)

theorem allBodies_true (setup : Setup) : setup.AllBodies fun _ => True :=
  ⟨trivial, trivial, fun _ _ _ _ _ => trivial, fun _ _ _ => trivial⟩

/-- What may be done where an invariant is to go on. -/
structure Latitude where
  /-- The scalar may be assigned to, or named. -/
  assign : CellId → Prop
  /-- The cell may be blessed into the package. -/
  bless : CellId → String → Prop
  /-- The body of a sub may come in. -/
  body : NativeSub → Prop

/-- What cells are made with. -/
def Content.Made (l : Latitude) : Content → Prop
  | .scalar _ | .glob _ => True
  | .array items => items = #[]
  | .hash entries cursor => entries = [] ∧ cursor = 0
  | .code _ body => l.body body

/-- What operations on containers make of a content. -/
inductive Content.Becomes : Content → Content → Prop
  | array (items items') : Becomes (.array items) (.array items')
  | insert (entries cursor key c) :
    Becomes (.hash entries cursor) (.hash (entries.insert key c) cursor)
  | erase (entries cursor key) : Becomes (.hash entries cursor) (.hash (entries.erase key) cursor)
  | empty (entries cursor) : Becomes (.hash entries cursor) (.hash [] 0)
  | turn (entries cursor place) : Becomes (.hash entries cursor) (.hash entries place)

namespace Heap

/-- The cell was made after the invariant had held. -/
def Since (I : Heap → Prop) (d : CellId) : Prop := ∃ h, I h ∧ h.cells.size ≤ d.index

/-- The invariant goes on through all changes for which there is latitude, with scalars that are in `V`. -/
structure Steady (l : Latitude) (I : Heap → Prop) (V : Embedding.Scalar → Prop := fun _ => True) : Prop where
  values : Scalar.Ample V := by exact Scalar.ample_true
  /-- The scalars that are there already are in `V`. -/
  held : ∀ {h c x}, I h → h.cell? c = some x → x.content.Within V := by exact fun _ _ _ _ => trivial
  allocate : ∀ {h content}, I h → content.Made l → content.Within V → I (h.allocate content).2
  recount : ∀ {h c x}, I h → h.cell? c = some x → ∀ n, 1 ≤ n →
    I (h.setCell c (some { x with refcount := n }))
  drop : ∀ {h}, I h → ∀ c, I (h.drop h.cells.size c)
  /-- Containers get new cells only. -/
  setContainer : ∀ {h c x content}, I h → h.cell? c = some x → x.content.Becomes content →
    (∀ d ∈ content.children, d ∈ x.content.children ∨ Since I d) →
    I (h.setCell c (some { x with content }))
  setScalar : ∀ {h c x s}, I h → h.cell? c = some x → x.content = .scalar s → l.assign c → ∀ s', V s' →
    I (h.setCell c (some { x with content := .scalar s' }))
  setNumified : ∀ {h c x s}, I h → h.cell? c = some x → x.content = .scalar s →
    I (h.setCell c (some { x with content := .scalar s.numified }))
  setPackage : ∀ {h c x package}, I h → h.cell? c = some x → l.bless c package →
    I (h.setCell c (some { x with package := some package }))
  /-- Variables keep their cells. -/
  define : ∀ {h c}, I h → l.assign c → ∀ slot name, slot = .code ∨ h.symbol? slot name = none →
    I { h with symbols := h.symbols.define slot name c }
  /-- The next cell that is made may be assigned to. -/
  made : ∀ {h}, I h → l.assign ⟨h.cells.size⟩

/-- There is latitude for all variables, too, and so for all that code does. -/
structure Sturdy (l : Latitude) (I : Heap → Prop) (V : Embedding.Scalar → Prop := fun _ => True) : Prop
    extends Steady l I V where
  named : ∀ {h name c}, I h → h.symbol? .scalar name = some c → l.assign c

/-- There is latitude for packages as well, and so for all that an interpreter does. -/
structure Stable (l : Latitude) (I : Heap → Prop) (V : Embedding.Scalar → Prop := fun _ => True) : Prop
    extends Sturdy l I V where
  load : ∀ {h}, I h → ∀ package, I { h with loaded := package :: h.loaded }

variable {l : Latitude} {I : Heap → Prop} {V : Embedding.Scalar → Prop}

theorem preserves_query_bind {f : Heap → Except Fault α} {k : α → HeapM β}
    (hk : ∀ h a, I h → f h = .ok a → I ((k a).run h).2) : Preserves I (query f >>= k) := by
  intro h hI
  cases hf : f h with
  | error e => rwa [run_bind_error (by rw [run_query, hf])]
  | ok a =>
    rw [run_bind_ok (by rw [run_query, hf])]
    exact hk h a hI hf

theorem preserves_ofExcept (r : Except Fault α) : Preserves I (ofExcept r : HeapM α) := by
  cases r with
  | ok a => exact preserves_pure a
  | error e => exact preserves_throw e

theorem run_setContent {h : Heap} {c : CellId} {x : Cell} (hx : h.cell? c = some x)
    (content : Content) :
    (setContent c content).run h = (.ok (), h.setCell c (some { x with content })) :=
  run_bind_ok (by rw [run_query, cell_eq_ok_iff.2 hx])

namespace Steady

variable (hI : Steady l I V)
include hI

/-! ## Cells -/

theorem alloc {content : Content} (hmade : content.Made l) (hV : content.Within V) :
    Preserves I (alloc content) :=
  fun _ h => hI.allocate h hmade hV

theorem newScalar {s : Embedding.Scalar} (hs : V s) : Preserves I (newScalar s) :=
  hI.alloc trivial (Content.within_scalar hs)

theorem ends_newScalar {h : Heap} (hh : I h) {s : Embedding.Scalar} (hs : V s) :
    Ends (Heap.newScalar s) h fun r h' => I h' ∧ ∀ d, r = .ok d → Since I d := by
  refine ⟨hI.newScalar hs h hh, ?_⟩
  rintro _ ⟨⟩
  exact ⟨h, hh, Nat.le_refl _⟩

theorem allocUndefs (n : Nat) : Preserves I (allocUndefs n) := by
  intro h hh
  induction n with
  | zero =>
    have hrun : ((Heap.allocUndefs 0).run h).2 = h := by
      change ({ h with cells := h.cells ++ Array.replicate 0 _ } : Heap) = h
      simp
    rwa [hrun]
  | succ n ih =>
    have hrun : ((Heap.allocUndefs (n + 1)).run h).2 =
        (((Heap.allocUndefs n).run h).2.allocate (.scalar .undef)).2 := by
      simp only [Heap.allocUndefs, Heap.allocate, Array.replicate_succ, Array.append_push]
      rfl
    rw [hrun]
    exact hI.allocate ih trivial (Content.within_scalar hI.values.undef)

theorem ends_allocUndefs {h : Heap} (hh : I h) (n : Nat) :
    Ends (Heap.allocUndefs n) h fun r h' => I h' ∧ ∀ fill, r = .ok fill → ∀ d ∈ fill, Since I d := by
  refine ⟨hI.allocUndefs n h hh, ?_⟩
  rintro _ ⟨⟩ d hd
  obtain ⟨i, -, rfl⟩ := List.mem_map.1 hd
  exact ⟨h, hh, Nat.le_add_right ..⟩

theorem retain (c : CellId) : Preserves I (retain c) :=
  preserves_query_bind fun _ _ hh hx => hI.recount hh (cell_eq_ok_iff.1 hx) _ (Nat.le_add_left ..)

theorem release (c : CellId) : Preserves I (release c) :=
  preserves_query_bind fun _ _ hh _ => hI.drop hh c

theorem releaseAll (cs : List CellId) : Preserves I (releaseAll cs) :=
  preserves_forM fun c _ => hI.release c

theorem releaseOption (o : Option CellId) : Preserves I (releaseOption o) := by
  cases o with
  | some c => exact hI.release c
  | none => exact preserves_pure _

theorem found (c : CellId) (b : β) : Preserves I (do Heap.retain c; return b : HeapM β) :=
  (hI.retain c).bind fun _ => preserves_pure b

/-- What is copied is in a cell, or refers to one. -/
theorem ends_takeValue {h : Heap} (hh : I h) (c : CellId) :
    Ends (takeValue c) h fun r h' => I h' ∧ ∀ s, r = .ok s → V s := by
  rw [takeValue_eq]
  unfold Ends
  cases hx : h.cell c with
  | error e =>
    rw [run_bind_error (by rw [run_query, hx])]
    exact ⟨hh, nofun⟩
  | ok x =>
    rw [run_bind_ok (by rw [run_query, hx])]
    have hvalue : V (contentValue c x.content) := by
      cases hcontent : x.content with
      | scalar s => exact hI.held hh (cell_eq_ok_iff.1 hx) s hcontent
      | _ => exact hI.values.ref c
    have hreturned (s : Embedding.Scalar)
        (hs : (.ok (contentValue c x.content) : Except Fault Embedding.Scalar) = .ok s) : V s :=
      Except.ok.inj hs ▸ hvalue
    cases (contentValue c x.content).ref with
    | some target =>
      exact Ends.bind (Q := fun _ h' => I h') (R := fun r h' => I h' ∧ ∀ s, r = .ok s → V s)
        (hI.retain target h hh) (fun _ _ hh' => ⟨hh', hreturned⟩) fun _ _ hh' => ⟨hh', nofun⟩
    | none => exact ⟨hh, hreturned⟩

theorem copy (c : CellId) : Preserves I (copy c) :=
  Preserves.bind_of (fun _ hh => hI.ends_takeValue hh c) fun _ hs => hI.newScalar hs

theorem ends_copy {h : Heap} (hh : I h) (c : CellId) :
    Ends (Heap.copy c) h fun r h' => I h' ∧ ∀ d, r = .ok d → Since I d := by
  refine (hI.ends_takeValue hh c).bind (fun s h' hh' => ?_) fun _ _ hh' => ⟨hh'.1, nofun⟩
  exact hI.ends_newScalar hh'.1 (hh'.2 s rfl)

theorem newRef (target : CellId) : Preserves I (newRef target) :=
  (hI.retain target).bind fun _ => hI.newScalar (hI.values.ref target)

theorem deref (c : CellId) : Preserves I (deref c) :=
  (preserves_query _).bind fun target => hI.found target _

/-! ## Scalars -/

theorem assign {dst : CellId} (hdst : l.assign dst) (src : CellId) : Preserves I (assign dst src) := by
  refine (preserves_query _).bind fun _ =>
    Preserves.bind_of (fun _ hh => hI.ends_takeValue hh src) fun value hvalue => ?_
  refine preserves_query_bind fun h old hh hold => ?_
  obtain ⟨x, hx, hcontent⟩ := scalar_eq_ok_iff.1 hold
  have hset : I ((setContent dst (.scalar value)).run h).2 := by
    rw [run_setContent hx]
    exact hI.setScalar hh hx hcontent hdst value hvalue
  exact preserved_bind hset fun _ => hI.releaseOption old.ref

theorem numify (c : CellId) : Preserves I (numify c) := by
  refine preserves_query_bind fun h s hh hs => ?_
  obtain ⟨x, hx, hcontent⟩ := scalar_eq_ok_iff.1 hs
  have hset : I ((setContent c (.scalar s.numified)).run h).2 := by
    rw [run_setContent hx]
    exact hI.setNumified hh hx hcontent
  exact preserved_bind hset fun _ => preserves_pure _

theorem bless {h : Heap} {c : CellId} {package : String} (hh : I h)
    (hbless : ∀ t, h.target c = .ok t → l.bless t package) : I ((bless c package).run h).2 := by
  cases ht : h.target c with
  | error e => rwa [Heap.bless, run_bind_error (by rw [run_query, ht])]
  | ok t =>
    rw [Heap.bless, run_bind_ok (by rw [run_query, ht])]
    cases hx : h.cell t with
    | error e => rwa [run_bind_error (by rw [run_query, hx])]
    | ok x =>
      rw [run_bind_ok (by rw [run_query, hx])]
      exact hI.setPackage hh (cell_eq_ok_iff.1 hx) (hbless t ht)

/-! ## Containers -/

theorem setItems {h : Heap} {c : CellId} {items items' : Array CellId} (hh : I h)
    (hc : h.items c = .ok items) (hnew : ∀ d ∈ items', d ∈ items ∨ Since I d) :
    I ((setContent c (.array items')).run h).2 := by
  obtain ⟨x, hx, hcontent⟩ := items_eq_ok_iff.1 hc
  rw [run_setContent hx]
  refine hI.setContainer hh hx (hcontent ▸ .array items items') fun d hd => ?_
  rw [hcontent]
  exact (hnew d (Array.mem_toList_iff.1 hd)).imp_left Array.mem_toList_iff.2

theorem setEntries {h : Heap} {c : CellId} {entries : Dict CellId} {cursor : Nat} {content : Content}
    (hh : I h) (hc : h.hash c = .ok (entries, cursor))
    (hbecomes : (Content.hash entries cursor).Becomes content)
    (hnew : ∀ d ∈ content.children, d ∈ entries.values ∨ Since I d) :
    I ((setContent c content).run h).2 := by
  obtain ⟨x, hx, hcontent⟩ := hash_eq_ok_iff.1 hc
  rw [run_setContent hx]
  refine hI.setContainer hh hx (hcontent ▸ hbecomes) fun d hd => ?_
  rw [hcontent]
  exact hnew d hd

theorem arrayFetch (c : CellId) (index : Nat) : Preserves I (arrayFetch c index) := by
  refine (preserves_query _).bind fun items => ?_
  cases items[index]? with
  | some item => exact hI.found item _
  | none => exact preserves_pure _

theorem arrayStore (c : CellId) (index : Nat) (value : CellId) :
    Preserves I (arrayStore c index value) := by
  refine (preserves_query _).bind fun length => ?_
  refine Preserves.bind_of (P := Since I) (fun h hh => hI.ends_copy hh value) fun item hitem => ?_
  refine Preserves.bind_of (P := fun fill => ∀ d ∈ fill, Since I d)
    (fun h hh => hI.ends_allocUndefs hh _) fun fill hfill => ?_
  refine preserves_query_bind fun h items hh hitems => ?_
  -- an item is an old one, one of those that fill the gap, or the copy of the value
  have hfilled {d : CellId} (hd : d ∈ items ++ fill) : d ∈ items ∨ Since I d := by
    rw [← Array.mem_toList_iff, Array.toList_appendList, List.mem_append, Array.mem_toList_iff] at hd
    exact hd.imp_right (hfill d)
  dsimp only
  split
  · refine preserved_bind (hI.setItems hh hitems fun d hd => ?_) fun _ => hI.release _
    rcases Array.mem_or_eq_of_mem_setIfInBounds hd with hd | rfl
    · exact hfilled hd
    · exact .inr hitem
  · refine hI.setItems hh hitems fun d hd => ?_
    rcases Array.mem_push.1 hd with hd | rfl
    · exact hfilled hd
    · exact .inr hitem

theorem arrayPop (c : CellId) : Preserves I (arrayPop c) := by
  refine preserves_query_bind fun _ items hh hitems => ?_
  refine preserved_bind (hI.setItems hh hitems fun d hd => .inl ?_) fun _ => preserves_pure _
  rw [← Array.mem_toList_iff, Array.toList_pop] at hd
  exact Array.mem_toList_iff.1 (List.dropLast_subset _ hd)

theorem arrayClear (c : CellId) : Preserves I (arrayClear c) :=
  preserves_query_bind fun _ _ hh hitems =>
    preserved_bind (hI.setItems hh hitems fun d hd => absurd hd (Array.not_mem_empty d))
      fun _ => hI.releaseAll _

theorem hashFetch (c : CellId) (key : String) : Preserves I (hashFetch c key) := by
  refine (preserves_query _).bind fun entries => ?_
  cases Dict.get? entries key with
  | some value => exact hI.found value _
  | none => exact preserves_pure _

theorem hashStore (c : CellId) (key : String) (value : CellId) :
    Preserves I (hashStore c key value) := by
  rw [hashStore_eq]
  refine (preserves_query _).bind fun _ => ?_
  refine Preserves.bind_of (P := Since I) (fun h hh => hI.ends_copy hh value) fun item hitem => ?_
  refine preserves_query_bind fun h entries hh hentries => ?_
  refine preserved_bind (hI.setEntries hh hentries (.insert ..) fun d hd => ?_) fun _ => hI.releaseOption _
  have hd := (values_insert_perm entries.1 key item).subset (List.mem_append_left _ hd)
  rcases List.mem_append.1 hd with hd | hd
  · exact .inl hd
  · exact .inr (List.mem_singleton.1 hd ▸ hitem)

theorem hashDelete (c : CellId) (key : String) : Preserves I (hashDelete c key) := by
  refine preserves_query_bind fun _ entries hh hentries => ?_
  refine preserved_bind (hI.setEntries hh hentries (.erase ..) fun d hd => .inl ?_) fun _ => preserves_pure _
  exact (values_erase_perm entries.1 key).subset (List.mem_append_left _ hd)

theorem hashClear (c : CellId) : Preserves I (hashClear c) :=
  preserves_query_bind fun _ _ hh hentries =>
    preserved_bind (hI.setEntries hh hentries (.empty ..) nofun) fun _ => hI.releaseAll _

theorem hashRewind (c : CellId) : Preserves I (hashRewind c) :=
  preserves_query_bind fun _ _ hh hentries => hI.setEntries hh hentries (.turn ..) fun _ => .inl

theorem hashNext (c : CellId) : Preserves I (hashNext c) := by
  refine preserves_query_bind fun h entries hh hentries => ?_
  obtain ⟨entries, cursor⟩ := entries
  dsimp only
  split
  · exact preserved_bind (hI.setEntries hh hentries (.turn ..) fun _ => .inl) fun _ => hI.found _ _
  · exact hh

/-! ## Symbols -/

theorem ends_look {h : Heap} (hh : I h) (slot : Slot) (name : String) (create : Bool) :
    Ends (global slot name create) h fun r h' => I h' ∧ ∀ o, r = .ok o → ∀ c ∈ o,
      h.symbol? slot (Name.qualify name) = some c ∨ l.assign c := by
  have hfound {c : CellId} {g : Heap} (hh : I g)
      (hc : h.symbol? slot (Name.qualify name) = some c ∨ l.assign c) :
      Ends (do Heap.retain c; return some c : HeapM (Option CellId)) g fun r h' =>
        I h' ∧ ∀ o, r = .ok o → ∀ c ∈ o, h.symbol? slot (Name.qualify name) = some c ∨ l.assign c := by
    refine Ends.bind (Q := fun _ h' => I h') (hI.retain c g hh) (fun _ h' hh' => ?_) fun _ _ hh' => ⟨hh', nofun⟩
    refine ends_pure ⟨hh', ?_⟩
    rintro _ ⟨⟩ d hd
    obtain rfl := Option.some.inj hd
    exact hc
  unfold global
  refine Ends.congr ?_ (run_get_bind _ h)
  split
  · next c hc => exact hfound hh (.inl hc)
  · next hnone =>
    split
    · next content hcontent =>
      obtain ⟨hmade, hV⟩ : content.Made l ∧ content.Within V := by
        cases create <;> cases slot <;> cases hcontent
        · exact ⟨trivial, Content.within_scalar hI.values.undef⟩
        · exact ⟨rfl, nofun⟩
        · exact ⟨⟨rfl, rfl⟩, nofun⟩
      have hnew : l.assign (h.allocate content).1 := hI.made hh
      exact hfound (hI.define (hI.allocate hh hmade hV) hnew slot _ (.inr hnone)) (.inr hnew)
    · exact ends_pure ⟨hh, by rintro _ ⟨⟩ _ ⟨⟩⟩

theorem global (slot : Slot) (name : String) (create : Bool) : Preserves I (global slot name create) :=
  fun _ hh => (hI.ends_look hh slot name create).1

theorem narrow (context : Context) (values : List CellId) : Preserves I (narrow context values) := by
  cases context with
  | list => exact preserves_pure _
  | scalar | void => exact (hI.releaseAll _).bind fun _ => preserves_pure _

theorem setError {h : Heap} (hh : I h) (hnamed : ∀ c, h.symbol? .scalar errorName = some c → l.assign c)
    (value : CellId) : I ((setError value).run h).2 := by
  unfold Heap.setError
  cases hc : h.errorCell with
  | error e => rwa [run_bind_error (by rw [run_query, hc])]
  | ok c =>
    rw [run_bind_ok (by rw [run_query, hc])]
    exact hI.assign (hnamed c (errorCell_eq_ok_iff.1 hc)) value h hh

end Steady

namespace Sturdy

variable (hI : Sturdy l I V)
include hI

/-- A variable that was looked up may be assigned to. -/
theorem ends_global {h : Heap} (hh : I h) (slot : Slot) (name : String) (create : Bool) :
    Ends (Heap.global slot name create) h fun r h' =>
      I h' ∧ ∀ o, r = .ok o → ∀ c ∈ o, slot = .scalar → l.assign c := by
  obtain ⟨hh', hassign⟩ := hI.ends_look hh slot name create
  refine ⟨hh', fun o ho c hc hslot => (hassign o ho c hc).elim (fun hsymbol => ?_) id⟩
  subst hslot
  exact hI.named hh hsymbol

theorem defineSub (name : String) {body : NativeSub} (hbody : l.body body) :
    Preserves I (defineSub name body) := by
  intro h hh
  have hnew : l.assign (h.allocate (.code (Name.qualify name) body)).1 := hI.made hh
  have hmade : (Content.code (Name.qualify name) body).Made l := hbody
  have hdefined := hI.define (hI.allocate hh hmade nofun) hnew .code (Name.qualify name) (.inl rfl)
  exact hI.releaseOption _ _ hdefined

theorem variableCell {name : String} {slot : Slot} {k : CellId → HeapM α}
    (hk : ∀ c, (slot = .scalar → l.assign c) → Preserves I (k c)) :
    Preserves I (variableCell slot name >>= k) := by
  refine Preserves.bind_of (P := fun c => slot = .scalar → l.assign c) (fun h hh => ?_) hk
  refine (hI.ends_global hh slot name true).bind (fun o h' hh' => ?_) fun _ _ hh' => ⟨hh'.1, nofun⟩
  cases o with
  | none => exact ends_throw ⟨hh'.1, nofun⟩
  | some c =>
    refine ends_pure ⟨hh'.1, ?_⟩
    rintro _ ⟨⟩
    exact hh'.2 _ rfl c rfl

/-! ## The pending error -/

theorem setError (value : CellId) : Preserves I (setError value) := fun _ hh =>
  hI.toSteady.setError hh (fun _ => hI.named hh) value

theorem clearError : Preserves I clearError :=
  (hI.newScalar (hI.values.bytes [])).bind fun empty => (show Preserves I (Heap.setError empty).attempt from
    hI.setError empty).bind fun _ => (hI.release empty).bind fun _ => preserves_ofExcept _

theorem takeError : Preserves I takeError := by
  refine (preserves_query _).bind fun c => (preserves_query _).bind fun b => ?_
  split
  · exact (hI.copy c).bind fun _ => hI.clearError.bind fun _ => preserves_pure _
  · exact preserves_pure _

theorem die (message : String) : Preserves I (die message : HeapM α) :=
  (hI.newScalar (hI.values.text message)).bind fun value => (hI.setError value).bind fun _ => preserves_throw _

/-! ## Packages -/

theorem storeTexts (array : CellId) : ∀ (texts : List String) (index : Nat),
    Preserves I (storeTexts array index texts)
  | [], _ => preserves_pure _
  | text :: texts, index => (hI.newScalar (hI.values.text text)).bind fun c => (hI.arrayStore array index c).bind
    fun _ => (hI.release c).bind fun _ => storeTexts array texts (index + 1)

theorem setVariable (name : String) (literal : Literal) : Preserves I (setVariable name literal) :=
  hI.variableCell fun c hc => (hI.newScalar (hI.values.literal literal)).bind fun value =>
    (hI.assign (hc rfl) value).bind fun _ => (hI.release value).bind fun _ => hI.release c

theorem fillVariable (name : String) (texts : List String) : Preserves I (fillVariable name texts) :=
  hI.variableCell fun array _ => (hI.storeTexts array _ 0).bind fun _ => hI.release array

theorem resetVariable (name : String) (texts : List String) :
    Preserves I (resetVariable name texts) :=
  hI.variableCell fun array _ => (hI.arrayClear array).bind fun _ =>
    (hI.storeTexts array _ 0).bind fun _ => hI.release array

/-- `hmark` says for the packages that come in that the invariant goes on when they are noted down. -/
theorem install {p : Package} (hsubs : ∀ sub ∈ p.subs, l.body sub.2)
    (hmark : Preserves I (markLoaded p.name)) : Preserves I (install p) := by
  rw [install_eq]
  refine (preserves_forM fun sub hsub => hI.defineSub _ (hsubs sub hsub)).bind fun _ => ?_
  refine (preserves_forM fun entry _ => hI.setVariable _ entry.2).bind fun _ => ?_
  dsimp only
  split
  · exact (hI.resetVariable _ p.isa).bind fun _ => hmark
  · exact hmark

theorem boot {setup : Setup} (hall : setup.AllBodies l.body)
    (hmark : ∀ name ∈ setup.preloaded, ∀ p, setup.provided.get? name = some p →
      Preserves I (markLoaded p.name)) (args : List String) : Preserves I (boot setup args) := by
  rw [boot_eq]
  refine (hI.fillVariable "INC" _).bind fun _ => ?_
  refine (hI.defineSub _ hall.isa).bind fun _ => (hI.defineSub _ hall.can).bind fun _ => ?_
  refine preserves_forM fun name hname => ?_
  cases hp : setup.provided.get? name with
  | some p => exact hI.install (hall.subs name p hp) (hmark name hname p hp)
  | none => exact preserves_pure _

theorem require {setup : Setup} (hall : setup.AllBodies l.body) {package : String}
    (hmark : ∀ p, setup.provided.get? package = some p → p.compileError = none →
      Preserves I (markLoaded p.name)) : Preserves I (require setup package) := by
  refine preserves_get fun h => ?_
  dsimp only
  split
  · exact preserves_pure _
  · split
    · next p hp =>
      split
      · exact hI.die _
      · next herror => exact hI.install (hall.subs package p hp) (hmark p hp herror)
    · exact preserves_get fun h => hI.die _

end Sturdy

namespace Stable

variable (hI : Stable l I V)
include hI

theorem markLoaded (package : String) : Preserves I (markLoaded package) := by
  refine preserves_modify fun h hh => ?_
  split
  · exact hh
  · exact hI.load hh package

theorem boot {setup : Setup} (hall : setup.AllBodies l.body) (args : List String) :
    Preserves I (boot setup args) :=
  hI.toSturdy.boot hall (fun _ _ p _ => hI.markLoaded p.name) args

end Stable

end Heap

/-! ## Frames -/

def Action.assigned? : {s : Shape} → Action s → Option CellId
  | _, .assign target _ => some target
  | _, _ => none

/-- The reference whose target an action blesses, and the package. -/
def Action.blessed? : {s : Shape} → Action s → Option (CellId × String)
  | _, .bless c className => some (c, className)
  | _, _ => none

/-- The variable that an action assigns to. -/
def Action.variable? : {s : Shape} → Action s → Option String
  | _, .setGlobal name _ => some (Name.qualify name)
  | _, .setError _ => some Heap.errorName
  | _, _ => none

/-- There is latitude for what the action does itself. -/
def Latitude.Permits (l : Latitude) (h : Heap) {s : Shape} (action : Action s) : Prop :=
  (∀ c ∈ action.assigned?, l.assign c) ∧
    ∀ p ∈ action.blessed?, ∀ t, h.target p.1 = .ok t → l.bless t p.2

namespace Frame

variable {l : Latitude} {I : Heap → Prop}

def On (I : Heap → Prop) (f : Frame) : Prop := I f.heap

theorem on_onHeap {y : HeapM α} (hy : Preserves I y) : Preserves (On I) (onHeap y) :=
  fun f hf => hy f.heap hf

theorem on_keep (c : CellId) : Preserves (On I) (keep c) := fun _ hf => hf

theorem on_keepIfAny (o : Option CellId) : Preserves (On I) (keepIfAny o) := by
  cases o with
  | some c => exact (on_keep c).bind fun _ => preserves_pure _
  | none => exact preserves_pure _

theorem on_read (g : Frame → α) : Preserves (On I) (do return g (← get) : FrameM α) := fun _ hf => hf

end Frame

namespace Heap.Steady

open Embedding.Frame

variable {l : Latitude} {I : Heap → Prop} {V : Embedding.Scalar → Prop} (hI : Steady l I V)
include hI

theorem on_create {content : Content} (hmade : content.Made l) (hV : content.Within V) :
    Preserves (On I) (create content) :=
  fun _ hf => hI.allocate hf hmade hV

theorem on_createScalar {s : Embedding.Scalar} (hs : V s) : Preserves (On I) (create (.scalar s)) :=
  hI.on_create trivial (Content.within_scalar hs)

theorem on_die (message : String) : Preserves (On I) (Frame.die message : FrameM α) :=
  (hI.on_createScalar (hI.values.text message)).bind fun _ => preserves_throw _

theorem on_die_bind (message : String) (k : α → FrameM β) :
    Preserves (On I) (Frame.die message >>= k) :=
  Preserves.bind_of (P := fun _ => False) (fun f hf => ⟨hI.on_die (α := α) message f hf, nofun⟩)
    fun _ h => h.elim

theorem on_answered {k : Except Fault α → FrameM α} (hk : ∀ a, k (.ok a) = pure a)
    (he : ∀ e, ∃ message, k (.error e) = Frame.die message) (r : Except Fault α) :
    Preserves (On I) (k r) := by
  cases r with
  | ok a =>
    rw [hk]
    exact preserves_pure a
  | error e =>
    obtain ⟨message, he⟩ := he e
    rw [he]
    exact hI.on_die message

theorem on_orFault {y : HeapM α} (hy : Preserves I y) : Preserves (On I) (orFault y) :=
  (on_onHeap hy).bind (hI.on_answered (fun _ => rfl) fun e => ⟨e.message, rfl⟩)

theorem on_orDie (message : String) {y : HeapM α} (hy : Preserves I y) :
    Preserves (On I) (orDie message y) :=
  (on_onHeap hy).bind (hI.on_answered (fun _ => rfl) fun _ => ⟨message, rfl⟩)

theorem on_container (c : CellId) : Preserves (On I) (container c) := by
  refine preserves_get fun f => ?_
  split
  · exact hI.on_orFault (preserves_query _)
  · exact preserves_pure c
  · exact hI.on_die _

theorem on_newRef (c : CellId) : Preserves (On I) (Frame.newRef c) :=
  (hI.on_orFault (hI.newRef c)).bind fun d => on_keep d

theorem on_global {name : String} {k : CellId → FrameM α} {f : Frame} (hf : I f.heap)
    (hk : ∀ c, f.heap.symbol? .scalar (Name.qualify name) = some c ∨ l.assign c →
      Preserves (On I) (k c)) : On I ((Frame.global name >>= k).run f).2 := by
  unfold Frame.global orFault
  rw [bind_assoc, bind_assoc]
  have hlook := hI.ends_look hf .scalar name true
  unfold Ends at hlook
  have hrun : (onHeap (Heap.global .scalar name true)).run f =
      (.ok ((Heap.global .scalar name true).run f.heap).1,
        { f with heap := ((Heap.global .scalar name true).run f.heap).2 }) := rfl
  rw [run_bind_ok hrun]
  obtain ⟨hh, hassign⟩ := hlook
  generalize (Heap.global .scalar name true).run f.heap = p at hh hassign
  obtain ⟨e | _ | c, h'⟩ := p
  · exact hI.on_die_bind e.message _ { f with heap := h' } hh
  · exact hI.on_die_bind (α := CellId) s!"Global ${name} is not available" k { f with heap := h' } hh
  · exact hk c (hassign _ rfl c rfl) { f with heap := h', temporaries := c :: f.temporaries } hh

theorem on_storeItems (array : CellId) : ∀ (items : List CellId) (index : Nat),
    Preserves (On I) (Frame.storeItems array index items)
  | [], _ => preserves_pure _
  | item :: items, index => (hI.on_orFault (hI.arrayStore array index item)).bind fun _ =>
    on_storeItems array items (index + 1)

theorem on_call {call : Target CellId → List CellId → HeapM (List CellId)} {target : Target CellId}
    {args : List CellId} {f : Frame} (hcall : I ((call target args).run f.heap).2) :
    On I ((perform call (.call target args)).run f).2 := by
  have hcalled : On I ((onHeap (call target args)).run f).2 := hcall
  refine preserved_bind hcalled fun r => ?_
  split
  · exact preserves_mapM on_keep _
  · exact (on_keep _).bind fun _ => preserves_throw _
  · exact hI.on_die _

/-- An action preserves the invariant if there is latitude for it and for its variable, and the call does
if it is one. -/
theorem on_perform {call : Target CellId → List CellId → HeapM (List CellId)} {s : Shape}
    (action : Action s) {f : Frame} (hf : I f.heap) (hpermits : l.Permits f.heap action)
    (hnamed : ∀ name ∈ action.variable?, ∀ c, f.heap.symbol? .scalar name = some c → l.assign c)
    (hcall : ∀ p ∈ action.called?, I ((call p.1 p.2).run f.heap).2) :
    On I ((perform call action).run f).2 := by
  have hrun {α : Type} {x : FrameM α} (hx : Preserves (On I) x) : On I (x.run f).2 := hx f hf
  cases action with
  | liveCells => exact hrun (on_read fun f => f.heap.liveCells)
  | intOf c => exact hrun (on_read fun f => (f.heap.toInt c).toOption.getD 0)
  | numOf c => exact hrun (on_read fun f => (f.heap.toNum c).toOption.getD .zero)
  | textOf c => exact hrun (on_read fun f => (f.heap.toText c).toOption.getD "")
  | numify c => exact hrun ((on_onHeap (hI.numify c)).bind fun _ => preserves_pure _)
  | kindOf c => exact hrun (on_read fun f => (f.heap.kind c).toOption)
  | classOf c => exact hrun (on_read fun f => (f.heap.className c).toOption.join)
  | derives className parent => exact hrun (on_read fun f => f.heap.derivesFrom className parent)
  | newUndef => exact hrun (hI.on_createScalar hI.values.undef)
  | newInt n => exact hrun (hI.on_createScalar (hI.values.int n))
  | newNum x => exact hrun (hI.on_createScalar (hI.values.num x))
  | newText s | message s => exact hrun (hI.on_createScalar (hI.values.text s))
  | newBytes bytes => exact hrun (hI.on_createScalar (hI.values.bytes bytes))
  | newBool b => exact hrun (hI.on_createScalar (hI.values.bool b))
  | newGlob name => exact hrun (hI.on_create (show (Content.glob _).Made l from trivial) nofun)
  | newArray items =>
    exact hrun ((hI.on_create (show (Content.array #[]).Made l from rfl) nofun).bind fun array =>
      (hI.on_storeItems array items 0).bind fun _ => hI.on_newRef array)
  | newHash pairs =>
    refine hrun ((hI.on_create (show (Content.hash [] 0).Made l from ⟨rfl, rfl⟩) nofun).bind fun hash =>
      (preserves_forM ?_).bind fun _ => hI.on_newRef hash)
    rintro ⟨key, value⟩ -
    exact hI.on_orFault (hI.hashStore hash key value)
  | newRef target => exact hrun (hI.on_newRef target)
  | bless c className =>
    have hbless : On I ((onHeap (Heap.bless c className)).run f).2 := hI.bless hf (hpermits.2 _ rfl)
    exact preserved_bind (preserved_bind hbless (hI.on_answered (fun _ => rfl) fun _ => ⟨_, rfl⟩))
      fun _ => preserves_pure c
  | fetch c key =>
    exact hrun ((hI.on_container c).bind fun hash =>
      (hI.on_orDie _ (hI.hashFetch hash key)).bind fun o => on_keepIfAny o)
  | store c key value =>
    exact hrun ((hI.on_container c).bind fun hash => hI.on_orDie _ (hI.hashStore hash key value))
  | assign target value => exact hrun (hI.on_orFault (hI.assign (hpermits.1 _ rfl) value))
  | element c index =>
    exact hrun ((hI.on_container c).bind fun array =>
      (hI.on_orDie _ (hI.arrayFetch array index)).bind fun o => on_keepIfAny o)
  | push c value =>
    exact hrun ((hI.on_container c).bind fun array => (hI.on_orDie _ (preserves_query _)).bind fun length =>
      hI.on_orFault (hI.arrayStore array length value))
  | length c => exact hrun (on_read fun f => Frame.length f.heap c)
  | global name =>
    have hglobal : On I ((Frame.global name >>= pure).run f).2 := hI.on_global hf fun c _ => preserves_pure c
    rw [bind_pure] at hglobal
    exact hglobal
  | setGlobal name value =>
    exact hI.on_global hf fun c hc =>
      hI.on_orFault (hI.assign (hc.elim (hnamed _ rfl c) id) value)
  | codeRef name =>
    refine hrun ((hI.on_orFault (hI.global .code name false)).bind fun o => ?_)
    cases o with
    | some c => exact (on_keep c).bind fun c => (hI.on_newRef c).bind fun _ => preserves_pure _
    | none => exact preserves_pure _
  | can className method =>
    refine hrun (preserves_get fun f => ?_)
    split
    · exact (hI.on_newRef _).bind fun _ => preserves_pure _
    · exact preserves_pure _
  | call target args => exact hI.on_call (hcall (target, args) rfl)
  | setError value =>
    have hset : On I ((onHeap (Heap.setError value)).run f).2 := hI.setError hf (hnamed _ rfl) value
    exact preserved_bind hset (hI.on_answered (fun _ => rfl) fun e => ⟨e.message, rfl⟩)

end Heap.Steady

/-! ## Calls -/

/-- There is latitude for every action in the run of the procedure, where `P` says so of its calls. -/
def Proc.Permitted (l : Latitude) (call : Target CellId → List CellId → HeapM (List CellId))
    (P : Target CellId → List CellId → Heap → Prop) : Proc α → Frame → Prop
  | .done _, _ | .die _, _ => True
  | .act action next, f =>
    (l.Permits f.heap action ∧ action.Meets P f.heap) ∧
      (next ((Frame.perform call action).run f).1).Permitted l call P
        ((Frame.perform call action).run f).2

namespace Heap

/-- There is latitude for all that the bodies do that a call runs. -/
def CallPermitted (l : Latitude) : (depth : Nat) → Target CellId → List CellId → Context → Heap → Prop
  | 0, _, _, _, _ => True
  | depth + 1, target, args, context, h =>
    ∀ p ∈ callee? target args context h,
      p.1.Permitted l (fun target args => callWithin depth target args .list)
        (fun target args => CallPermitted l depth target args .list) (startFrame p.2)

end Heap

/-- There is latitude for the request and for all that the bodies do that run for it. -/
def Request.Permitted (l : Latitude) (setup : Setup) :
    {s : Shape} → Request CellId s → Heap → Prop
  | _, .call target args context, h => Heap.CallPermitted l Heap.maxDepth target args context h
  | _, .eval source context, h => ∀ evaluator, setup.evaluator = some evaluator →
      (evaluator source ⟨"(eval)", [], context⟩).Permitted l
        (fun target args => Heap.callWithin Heap.maxDepth target args .list)
        (fun target args => Heap.CallPermitted l Heap.maxDepth target args .list) (Heap.startFrame h)
  | _, .assign dst _, _ => l.assign dst
  | _, _, _ => True

/-! ### Deciding what is permitted -/

section
variable {l : Latitude} [DecidablePred l.assign] [∀ c package, Decidable (l.bless c package)]
  {call : Target CellId → List CellId → HeapM (List CellId)}
  {P : Target CellId → List CellId → Heap → Prop}

instance (className : String) : (r : Except Fault CellId) →
    Decidable (∀ t, r = .ok t → l.bless t className)
  | .ok t =>
    decidable_of_iff (l.bless t className) ⟨fun h _ ht => Except.ok.inj ht ▸ h, fun h => h t rfl⟩
  | .error _ => .isTrue nofun

instance (h : Heap) {s : Shape} (action : Action s) : Decidable (l.Permits h action) :=
  inferInstanceAs (Decidable (_ ∧ _))

def decidePermitted [∀ target args h, Decidable (P target args h)] :
    (p : Proc α) → (f : Frame) → Decidable (p.Permitted l call P f)
  | .done _, _ | .die _, _ => .isTrue trivial
  | .act action next, f =>
    let step := (Frame.perform call action).run f
    have := decidePermitted (next step.1) step.2
    inferInstanceAs (Decidable ((_ ∧ _) ∧ _))

instance decideCallPermitted : (depth : Nat) → (target : Target CellId) → (args : List CellId) →
    (context : Context) → (h : Heap) → Decidable (Heap.CallPermitted l depth target args context h)
  | 0, _, _, _, _ => .isTrue trivial
  | depth + 1, target, args, context, h =>
    have := fun target args h => decideCallPermitted depth target args .list h
    have (p : Proc (List CellId) × Heap) : Decidable (p.1.Permitted l
        (fun target args => Heap.callWithin depth target args .list)
        (fun target args => Heap.CallPermitted l depth target args .list) (Heap.startFrame p.2)) :=
      decidePermitted p.1 (Heap.startFrame p.2)
    inferInstanceAs (Decidable (∀ p ∈ Heap.callee? target args context h, _))

end

namespace Heap.Sturdy

variable {l : Latitude} {I : Heap → Prop} {V : Embedding.Scalar → Prop} (hI : Sturdy l I V)
  {call : Target CellId → List CellId → HeapM (List CellId)}
  {P : Target CellId → List CellId → Heap → Prop}
include hI

/-- One step at a time: what an action leaves satisfies the invariant, and the rest starts from there. -/
theorem on_run (hcall : ∀ target args h, I h → P target args h → I ((call target args).run h).2)
    (p : Proc α) (f : Frame) (hf : I f.heap) (hp : p.Permitted l call P f) :
    Frame.On I ((p.run call).run f).2 := by
  induction p generalizing f with
  | done a => exact hf
  | die value => exact hf
  | act action next ih =>
    obtain ⟨⟨hpermits, hmeets⟩, hnext⟩ := hp
    rw [Proc.run_act]
    refine ih _ _ (hI.on_perform action hf hpermits (fun _ _ _ => hI.named hf) fun p hp => ?_) hnext
    exact hcall p.1 p.2 f.heap hf (hmeets p hp)

theorem copyOut (outcome : Except CellId (List CellId)) : Preserves I (copyOut outcome) := by
  cases outcome with
  | ok values => exact preserves_mapM hI.copy values
  | error value =>
    exact (hI.copy value).bind fun d => (hI.setError d).bind fun _ => preserves_throw _

theorem invoke (hcall : ∀ target args h, I h → P target args h → I ((call target args).run h).2)
    {body : Proc (List CellId)} {h : Heap} (hh : I h) (hbody : body.Permitted l call P (startFrame h))
    (context : Context) : I ((invoke call body context).run h).2 := by
  have hstart : I (startFrame h).heap := hI.clearError h hh
  have hend := hI.on_run hcall body (startFrame h) hstart hbody
  rw [invoke_eq]
  unfold startFrame at hend
  cases hclear : Heap.clearError.run h with
  | mk r h₁ =>
    rw [hclear] at hend
    cases r with
    | error e =>
      rw [run_bind_error hclear]
      have := hI.clearError h hh
      rwa [hclear] at this
    | ok _ =>
      rw [run_bind_ok hclear, run_get_bind]
      revert hend
      generalize (body.run call).run { heap := h₁ } = result
      obtain ⟨outcome, frame⟩ := result
      intro hend
      have hrest : Preserves I (do
          let result ← (Heap.copyOut outcome).attempt
          Heap.releaseAll frame.temporaries.reverse
          let values ← ofExcept result
          Heap.narrow context values) :=
        (show Preserves I (Heap.copyOut outcome).attempt from hI.copyOut outcome).bind fun r =>
          (hI.releaseAll _).bind fun _ => (preserves_ofExcept r).bind fun values => hI.narrow context values
      exact hrest frame.heap hend

theorem invocantClass (invocant : CellId) (method : String) :
    Preserves I (invocantClass invocant method) := by
  refine (preserves_query _).bind fun kind => ?_
  split
  · refine (preserves_query _).bind fun className => ?_
    cases className with
    | some className => exact preserves_pure _
    | none => exact hI.die _
  · refine (preserves_query _).bind fun className => preserves_get fun h => ?_
    split
    · exact preserves_pure _
    · exact hI.die _
  · exact hI.die _

theorem resolve (target : Target CellId) : Preserves I (resolve target) := by
  cases target with
  | code c =>
    refine (preserves_query _).bind fun kind => ?_
    split
    · exact preserves_pure _
    · refine (preserves_query _).bind fun referent => (preserves_query _).bind fun kind => ?_
      split
      · exact preserves_pure _
      · exact hI.die _
    · exact hI.die _
  | named name =>
    refine preserves_get fun h => ?_
    split
    · exact preserves_pure _
    · exact hI.die _
  | method invocant name =>
    refine (hI.invocantClass invocant name).bind fun className => preserves_get fun h => ?_
    dsimp only
    split
    · exact preserves_pure _
    · exact hI.die _

theorem callWithin (depth : Nat) (target : Target CellId) (args : List CellId) (context : Context)
    {h : Heap} (hh : I h) (hpermitted : CallPermitted l depth target args context h) :
    I ((callWithin depth target args context).run h).2 := by
  induction depth generalizing target args context h with
  | zero => exact hI.die _ h hh
  | succ depth ih =>
    rw [callWithin_succ]
    have hresolve := hI.resolve target h hh
    cases hrun : (Heap.resolve target).run h with
    | mk r h' =>
      rw [hrun] at hresolve
      cases r with
      | error e => rwa [run_bind_error hrun]
      | ok c =>
        rw [run_bind_ok hrun]
        cases hx : h'.cell c with
        | error e => rwa [run_bind_error (by rw [run_query, hx])]
        | ok x =>
          rw [run_bind_ok (by rw [run_query, hx])]
          have hbody := hpermitted
          unfold CallPermitted callee? at hbody
          rw [hrun] at hbody
          simp only [cell_eq_ok_iff.1 hx, Option.map_some] at hbody
          split
          · next name body hcontent =>
            rw [hcontent] at hbody
            have hbody := hbody (body ⟨name, passed target args, context⟩, h') rfl
            have hcall := fun target args h (hh : I h) hp => ih (h := h) target args .list hh hp
            exact hI.invoke hcall hresolve hbody context
          · exact hI.die _ h' hresolve

end Heap.Sturdy

/-! ## Requests -/

namespace Heap.Sturdy

variable {l : Latitude} {I : Heap → Prop} {V : Embedding.Scalar → Prop}

theorem answer_of (hI : Sturdy l I V) {setup : Setup} (hall : setup.AllBodies l.body)
    (hmark : ∀ package p, setup.provided.get? package = some p → p.compileError = none →
      Preserves I (markLoaded p.name))
    {s : Shape} (request : Request CellId s) (hbrought : ∀ x ∈ request.brought?, V x) {h : Heap} (hh : I h)
    (hpermitted : request.Permitted l setup h) : I ((answer setup request).run h).2 := by
  have hrun {α : Type} {x : HeapM α} (hx : Preserves I x) : I (x.run h).2 := hx h hh
  cases request with
  | construct args => exact hh
  | eval source context =>
    unfold Heap.answer
    split
    · next evaluator hevaluator =>
      exact hI.invoke (fun target args _ => hI.callWithin maxDepth target args .list) hh
        (hpermitted evaluator hevaluator) context
    · exact hI.die _ h hh
  | require package => exact hrun (hI.require hall (hmark package))
  | call target args context => exact hI.callWithin maxDepth target args context hh hpermitted
  | takeError => exact hrun hI.takeError
  | retain c => exact hrun (hI.retain c)
  | release c => exact hrun (hI.release c)
  | refcount _ | kind _ | flags _ | toInt _ | toNum _ | toBytes _ | className _ | identity _
  | arrayLength _ | hashLength _ | hashContains _ _ => exact hh
  | newUndef => exact hrun (hI.newScalar hI.values.undef)
  | newBool b => exact hrun (hI.newScalar (hI.values.bool b))
  | newInt n => exact hrun (hI.newScalar (hI.values.int n))
  | newNum x => exact hrun (hI.newScalar (hI.values.num x))
  | newBytes bytes utf8 => exact hrun (hI.newScalar (hbrought _ rfl))
  | assign dst src => exact hrun (hI.assign hpermitted src)
  | newRef target => exact hrun (hI.newRef target)
  | deref c => exact hrun (hI.deref c)
  | newArray => exact hrun (hI.alloc (show (Content.array #[]).Made l from rfl) nofun)
  | newHash => exact hrun (hI.alloc (show (Content.hash [] 0).Made l from ⟨rfl, rfl⟩) nofun)
  | arrayFetch c index => exact hrun (hI.arrayFetch c index)
  | arrayStore c index value => exact hrun (hI.arrayStore c index value)
  | arrayPop c => exact hrun (hI.arrayPop c)
  | arrayClear c => exact hrun (hI.arrayClear c)
  | hashFetch c key => exact hrun (hI.hashFetch c key)
  | hashStore c key value => exact hrun (hI.hashStore c key value)
  | hashDelete c key => exact hrun (hI.hashDelete c key)
  | hashClear c => exact hrun (hI.hashClear c)
  | hashRewind c => exact hrun (hI.hashRewind c)
  | hashNext c => exact hrun (hI.hashNext c)
  | global slot name create => exact hrun (hI.global slot name create)

theorem answer (hI : Sturdy l I) {setup : Setup} (hall : setup.AllBodies l.body)
    (hmark : ∀ package p, setup.provided.get? package = some p → p.compileError = none →
      Preserves I (markLoaded p.name))
    {s : Shape} (request : Request CellId s) {h : Heap} (hh : I h)
    (hpermitted : request.Permitted l setup h) : I ((answer setup request).run h).2 :=
  hI.answer_of hall hmark request (fun _ _ => trivial) hh hpermitted

end Heap.Sturdy

theorem Heap.Stable.answer_of {l : Latitude} {I : Heap → Prop} {V : Scalar → Prop} (hI : Stable l I V)
    {setup : Setup} (hall : setup.AllBodies l.body) {s : Shape} (request : Request CellId s)
    (hbrought : ∀ x ∈ request.brought?, V x) {h : Heap} (hh : I h)
    (hpermitted : request.Permitted l setup h) : I ((Heap.answer setup request).run h).2 :=
  hI.toSturdy.answer_of hall (fun _ p _ _ => hI.markLoaded p.name) request hbrought hh hpermitted

theorem Heap.Stable.answer {l : Latitude} {I : Heap → Prop} (hI : Stable l I) {setup : Setup}
    (hall : setup.AllBodies l.body) {s : Shape} (request : Request CellId s) {h : Heap} (hh : I h)
    (hpermitted : request.Permitted l setup h) : I ((Heap.answer setup request).run h).2 :=
  hI.answer_of hall request (fun _ _ => trivial) hh hpermitted

/-! ## Latitude for everything -/

/-- Every scalar may be assigned to, and every cell blessed. -/
structure Latitude.Free (l : Latitude) : Prop where
  assign : ∀ c, l.assign c
  bless : ∀ c package, l.bless c package

namespace Latitude.Free

variable {l : Latitude} (hfree : l.Free) {call : Target CellId → List CellId → HeapM (List CellId)}
  {P : Target CellId → List CellId → Heap → Prop}
include hfree

theorem permits {s : Shape} (action : Action s) (h : Heap) : l.Permits h action :=
  ⟨fun c _ => hfree.assign c, fun p _ t _ => hfree.bless t p.2⟩

theorem permitted (hP : ∀ target args h, P target args h) (p : Proc α) (f : Frame) :
    p.Permitted l call P f := by
  induction p generalizing f with
  | done a => trivial
  | die value => trivial
  | act action next ih => exact ⟨⟨hfree.permits action f.heap, fun p _ => hP p.1 p.2 f.heap⟩, ih _ _⟩

theorem callPermitted (depth : Nat) (target : Target CellId) (args : List CellId) (context : Context)
    (h : Heap) : Heap.CallPermitted l depth target args context h := by
  induction depth generalizing target args context h with
  | zero => trivial
  | succ depth ih => exact fun p _ => hfree.permitted (fun target args h => ih target args .list h) _ _

theorem request (setup : Setup) {s : Shape} (request : Request CellId s) (h : Heap) :
    request.Permitted l setup h := by
  cases request with
  | call target args context => exact hfree.callPermitted Heap.maxDepth target args context h
  | eval source context =>
    exact fun _ _ => hfree.permitted
      (fun target args h => hfree.callPermitted Heap.maxDepth target args .list h) _ _
  | assign dst src => exact hfree.assign dst
  | _ => trivial

end Latitude.Free

end Embedding
