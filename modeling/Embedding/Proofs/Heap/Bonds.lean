import Embedding.Proofs.Heap.Latitude
import Embedding.Proofs.Heap.Quiet

/-!
# Bonds

A host binds methods to a scalar that no variable names: a reference to an object, or the name of a class.
As long as the scalar itself is not assigned to, it stands for the same object or class.
-/

namespace Embedding

variable {h h' : Heap} {c d : CellId}

theorem Scalar.numified_of_numeric {s : Scalar} (hs : s.flags.isNumeric = true) : s.numified = s := by
  unfold numified
  split
  · rw [if_pos hs]
  · rfl

theorem Scalar.numified_of_no_text {s : Scalar} (hs : s.text = none) : s.numified = s := by
  simp only [numified, hs]

theorem Scalar.numified_numified (s : Scalar) : s.numified.numified = s.numified := by
  -- a text that was used as a number is numeric from then on
  cases ht : s.text with
  | none => rw [numified_of_no_text ht, numified_of_no_text ht]
  | some t =>
    by_cases hnumeric : s.flags.isNumeric = true
    · rw [numified_of_numeric hnumeric, numified_of_numeric hnumeric]
    · refine numified_of_numeric ?_
      simp only [numified, ht, hnumeric, Bool.false_eq_true, if_false]
      split <;> simp [flags, Flags.isNumeric]

theorem Scalar.isTrue_numified (s : Scalar) : s.numified.isTrue = s.isTrue := by
  cases ht : s.text with
  | none => rw [numified_of_no_text ht]
  | some text =>
    unfold isTrue
    rw [numified_text, Heap.numified_ref, ht]
    cases s.ref <;> rfl

namespace Heap

/-- The class in which methods of a receiver are looked for: the package of its target, or the class that
it names. -/
def receiverClass (h : Heap) (c : CellId) : Except Fault (Option String) := do
  if (← h.kind c) = .ref then h.className c else return some (← h.toText c)

/-- The cell where a sub that a receiver's class has under the name is looked up. -/
def methodOf (h : Heap) (className method : String) : Option CellId :=
  if Name.hasPackage method.toList then h.symbol? .code method else h.resolveMethod className method

theorem not_run_die {α : Type} {message : String} {a : α} : (die message).run h ≠ (.ok a, h') := by
  intro hrun
  obtain ⟨_, _, _, hrun⟩ := run_bind_eq_ok hrun
  obtain ⟨_, _, _, hrun⟩ := run_bind_eq_ok hrun
  cases hrun

theorem invocantClass_receiverClass {method className : String}
    (hrun : (invocantClass c method).run h = (.ok className, h')) :
    h.receiverClass c = .ok (some className) ∧ h' = h := by
  obtain ⟨kind, hkind, hrun⟩ := run_query_bind_eq_ok hrun
  unfold receiverClass
  rw [hkind]
  cases kind with
  | ref =>
    obtain ⟨found, hfound, hrun⟩ := run_query_bind_eq_ok hrun
    cases found with
    | some found =>
      cases hrun
      exact ⟨hfound, rfl⟩
    | none => exact absurd hrun not_run_die
  | scalar =>
    obtain ⟨text, htext, hrun⟩ := run_query_bind_eq_ok hrun
    rw [run_get_bind] at hrun
    split at hrun
    · cases hrun
      rw [htext]
      exact ⟨rfl, rfl⟩
    · exact absurd hrun not_run_die
  | _ => exact absurd hrun not_run_die

end Heap

/-! ## What keeps a bond -/

/-- Anything may be done but to assign to the cell, and to bless its target into other packages. -/
def Latitude.binding (cell : CellId) (target : Option CellId) (packages : String → Prop) : Latitude where
  assign c := c ≠ cell
  bless c package := target = some c → packages package
  body _ := True

instance (cell : CellId) (target : Option CellId) (packages : String → Prop) :
    DecidablePred (Latitude.binding cell target packages).assign :=
  fun c => inferInstanceAs (Decidable (c ≠ cell))

instance (cell : CellId) (target : Option CellId) (packages : String → Prop) [DecidablePred packages]
    (c : CellId) (package : String) : Decidable ((Latitude.binding cell target packages).bless c package) :=
  inferInstanceAs (Decidable (target = some c → packages package))

/-- The cell holds the scalar, or has it after its use as a number. If it is a reference, then its target
is blessed into one of the packages. -/
structure Bound (cell : CellId) (value : Scalar) (packages : String → Prop) (h : Heap) : Prop where
  old : cell.index < h.cells.size
  unnamed : ∀ name, h.symbol? .scalar name ≠ some cell
  holds : ∀ x, h.cell? cell = some x → x.content = .scalar value ∨ x.content = .scalar value.numified
  target : ∀ t, value.ref = some t → t.index < h.cells.size ∧
    ∀ x, h.cell? t = some x → ∃ package, x.package = some package ∧ packages package

namespace Bound

variable {cell : CellId} {value : Scalar} {packages : String → Prop}

theorem of_cells (hb : Bound cell value packages h) (hsize : h.cells.size ≤ h'.cells.size)
    (hsymbols : h'.symbols = h.symbols) (hcells : ∀ c x', c.index < h.cells.size → h'.cell? c = some x' →
      ∃ x, h.cell? c = some x ∧ x'.content = x.content ∧ x'.package = x.package) :
    Bound cell value packages h' where
  old := Nat.lt_of_lt_of_le hb.old hsize
  unnamed name := by
    unfold Heap.symbol?
    rw [hsymbols]
    exact hb.unnamed name
  holds x' hx' := by
    obtain ⟨x, hx, hcontent, -⟩ := hcells cell x' hb.old hx'
    rw [hcontent]
    exact hb.holds x hx
  target t ht := by
    obtain ⟨hold, hpackage⟩ := hb.target t ht
    refine ⟨Nat.lt_of_lt_of_le hold hsize, fun x' hx' => ?_⟩
    obtain ⟨x, hx, -, hsame⟩ := hcells t x' hold hx'
    rw [hsame]
    exact hpackage x hx

theorem setCell (hb : Bound cell value packages h) {new : Cell}
    (hvalue : c = cell → new.content = .scalar value ∨ new.content = .scalar value.numified)
    (hpackage : value.ref = some c → ∃ package, new.package = some package ∧ packages package) :
    Bound cell value packages (h.setCell c (some new)) where
  old := by
    rw [Heap.setCell, Array.size_setIfInBounds]
    exact hb.old
  unnamed := hb.unnamed
  holds y hy := by
    rw [Heap.cell?_setCell] at hy
    split at hy
    · next hc =>
      cases hy
      exact hvalue hc.1
    · exact hb.holds y hy
  target t ht := by
    obtain ⟨hold, hpackages⟩ := hb.target t ht
    refine ⟨by rwa [Heap.setCell, Array.size_setIfInBounds], fun y hy => ?_⟩
    rw [Heap.cell?_setCell] at hy
    split at hy
    · next hc =>
      cases hy
      exact hpackage (hc.1 ▸ ht)
    · exact hpackages y hy

theorem same (hb : Bound cell value packages h) {x : Cell} (hx : h.cell? c = some x) :
    (c = cell → x.content = .scalar value ∨ x.content = .scalar value.numified) ∧
      (value.ref = some c → ∃ package, x.package = some package ∧ packages package) :=
  ⟨fun hc => hb.holds x (hc ▸ hx), fun hc => (hb.target c hc).2 x hx⟩

variable {x : Cell}

theorem scalar (hb : Bound cell value packages h) (hx : h.cell? cell = some x) :
    ∃ s, x.content = .scalar s ∧ s.ref = value.ref ∧ s.text = value.text := by
  rcases hb.holds x hx with he | he
  · exact ⟨value, he, rfl, rfl⟩
  · exact ⟨value.numified, he, Heap.numified_ref value, value.numified_text⟩

theorem reference (hb : Bound cell value packages h) (hx : h.cell? cell = some x) {t : CellId}
    (ht : value.ref = some t) : h.kind cell = .ok .ref ∧ h.target cell = .ok t := by
  obtain ⟨s, hcontent, href, -⟩ := hb.scalar hx
  have hs : s.ref = some t := href.trans ht
  refine ⟨?_, ?_⟩
  · rw [Heap.kind, Heap.cell_ok hx]
    exact congrArg Except.ok (by simp [hcontent, Content.kind, Scalar.kind, Scalar.flags, hs])
  · rw [Heap.target, Heap.cell_ok hx]
    dsimp only [bind, Except.bind]
    rw [hcontent]
    dsimp only
    rw [hs]
    rfl

theorem object (hb : Bound cell value packages h) (hx : h.cell? cell = some x) {t : CellId}
    (ht : value.ref = some t) {y : Cell} (hy : h.cell? t = some y) :
    h.identity cell = .ok t ∧ ∃ package, h.receiverClass cell = .ok (some package) ∧ packages package := by
  obtain ⟨hkind, htarget⟩ := hb.reference hx ht
  obtain ⟨package, hpackage, hin⟩ := (hb.target t ht).2 y hy
  refine ⟨?_, package, ?_, hin⟩
  · rw [Heap.identity, hkind]
    exact htarget
  · have hclass : h.className cell = .ok (some package) := by
      rw [Heap.className, hkind, ← hpackage]
      dsimp only [bind, Except.bind]
      rw [if_pos rfl, htarget]
      dsimp only
      rw [Heap.cell_ok hy]
      rfl
    rw [Heap.receiverClass, hkind]
    exact hclass

theorem text (hb : Bound cell value packages h) (hx : h.cell? cell = some x)
    (hnone : value.ref = none) {t : ByteText} (ht : value.text = some t) :
    h.kind cell = .ok .scalar ∧ h.toBytes cell = .ok t.bytes := by
  obtain ⟨s, hcontent, href, htext⟩ := hb.scalar hx
  have hs : s.ref = none := href.trans hnone
  have hst : s.text = some t := htext.trans ht
  refine ⟨?_, ?_⟩
  · rw [Heap.kind, Heap.cell_ok hx]
    refine congrArg Except.ok ?_
    simp [hcontent, Content.kind, Scalar.kind, Scalar.flags, hs, hst, Flags.isEmpty, Flags.empty]
  · rw [Heap.toBytes, Heap.cell_ok hx]
    dsimp only [bind, Except.bind]
    rw [hcontent]
    dsimp only
    rw [hst]
    rfl

theorem named (hb : Bound cell value packages h) (hx : h.cell? cell = some x)
    (hnone : value.ref = none) {t : ByteText} (ht : value.text = some t) :
    h.identity cell = .ok cell ∧ h.receiverClass cell = .ok (some (Utf8.decodeLossy t.bytes)) := by
  obtain ⟨hkind, hbytes⟩ := hb.text hx hnone ht
  refine ⟨?_, ?_⟩
  · rw [Heap.identity, hkind]
    rfl
  · rw [Heap.receiverClass, hkind, Heap.toText, hbytes]
    rfl

end Bound

theorem Heap.stable_bound (cell : CellId) (value : Scalar) (packages : String → Prop) :
    Heap.Stable (.binding cell value.ref packages) (Bound cell value packages) where
  allocate {h content} hb _ _ := by
    refine hb.of_cells (by simp [Heap.allocate]) rfl fun c x' hc hx' => ?_
    rw [Heap.cell?_allocate, if_neg (fun e => by simp [e, Heap.allocate] at hc)] at hx'
    exact ⟨x', hx', rfl, rfl⟩
  recount hb hx n _ := hb.setCell (hb.same hx).1 (hb.same hx).2
  drop {h} hb c := by
    have hs := Heap.shrinks_drop h.cells.size h c
    exact hb.of_cells (Nat.le_of_eq hs.size.symm) hs.symbols fun c x' _ hx' => hs.cells c x' hx'
  setContainer hb hx hbecomes _ := by
    refine hb.setCell (fun hc => ?_) (hb.same hx).2
    rcases (hb.same hx).1 hc with he | he <;> rw [he] at hbecomes <;> cases hbecomes
  setScalar hb hx _ hassign _ _ := hb.setCell (fun hc => absurd hc hassign) (hb.same hx).2
  setNumified hb hx hs := by
    refine hb.setCell (fun hc => ?_) (hb.same hx).2
    rcases (hb.same hx).1 hc with he | he <;> cases hs.symm.trans he
    · exact .inr rfl
    · exact .inr (by rw [Scalar.numified_numified])
  setPackage hb hx hbless := hb.setCell (hb.same hx).1 fun hc => ⟨_, rfl, hbless hc⟩
  define {h c} hb hassign slot name _ := { hb with
    unnamed := fun name' => by
      have hold := hb.unnamed name'
      unfold Heap.symbol? at hold ⊢
      rw [Symbols.table_define]
      split
      · next hslot =>
        subst hslot
        rw [Dict.get?_insert]
        split
        · exact fun he => hassign (Option.some.inj he)
        · exact hold
      · exact hold }
  load hb _ := ⟨hb.old, hb.unnamed, hb.holds, hb.target⟩
  made hb e := Nat.lt_irrefl _ (show _ < _ from e ▸ hb.old)
  named hb hc e := hb.unnamed _ (e ▸ hc)

end Embedding
