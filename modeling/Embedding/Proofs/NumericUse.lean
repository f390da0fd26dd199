import Embedding.Proofs.Heap.Bonds
import Embedding.Proofs.Releases

/-!
# Use of a string as a number

A string that is used as a number keeps the number that it was read as, and from then on the readers find it
in a slot of its own. The main statement is that they read what they read before, whatever the bytes are, and
that a second use finds nothing left to keep.
-/

namespace Embedding

namespace Scalar

variable {s : Scalar} {t : ByteText}

theorem numified_of_text (ht : s.text = some t) (hs : s.flags.isNumeric = false) :
    s.numified = match Numeral.int64? (numeral t) with
      | some n => { s with int := some n }
      | none => { s with num := some (Numeral.value (numeral t)) } := by
  unfold numified
  rw [ht]
  exact if_neg (by rw [hs]; exact Bool.false_ne_true)

theorem isNumeric_numified (ht : s.text = some t) : s.numified.flags.isNumeric = true := by
  cases hs : s.flags.isNumeric with
  | true => rwa [numified_of_numeric hs]
  | false =>
    rw [numified_of_text ht hs]
    split <;> simp [flags, Flags.isNumeric]

/-- The number that is kept is cut to the integer which the string is read as without it. -/
theorem toInt_numified (s : Scalar) : s.numified.toInt = s.toInt := by
  cases ht : s.text with
  | none => rw [numified_of_no_text ht]
  | some t =>
    cases hs : s.flags.isNumeric with
    | true => rw [numified_of_numeric hs]
    | false =>
      have hslots : s.int = none ∧ s.num = none := by simpa [flags, Flags.isNumeric] using hs
      rw [numified_of_text ht hs]
      cases hint : Numeral.int64? (numeral t) <;> simp [toInt, hslots, ht, hint]

theorem kind_of_text (ht : s.text = some t) : s.kind = if s.ref.isSome then .ref else .scalar := by
  simp [kind, flags, Flags.isEmpty, Flags.empty, ht]

theorem kind_numified (s : Scalar) : s.numified.kind = s.kind := by
  cases ht : s.text with
  | none => rw [numified_of_no_text ht]
  | some t => rw [kind_of_text ht, kind_of_text (s.numified_text.trans ht), Heap.numified_ref]

end Scalar

namespace Heap

variable {h h' : Heap} {c d : CellId} {x : Cell} {s : Scalar}

theorem setCell_of_cell? (hc : h.cell? c = some x) : h.setCell c (some x) = h := by
  refine ext_of_cell? (by simp [setCell]) (fun d => ?_) rfl rfl
  rw [cell?_setCell]
  split
  · next hd => rw [← hd.1, hc]
  · rfl

/-- What reads a cell finds in it what it finds in the other heap, be it a value or a fault. -/
structure ReadsAlike (h h' : Heap) (c : CellId) : Prop where
  toInt : h'.toInt c = h.toInt c
  toBytes : h'.toBytes c = h.toBytes c
  isTrue : h'.isTrue c = h.isTrue c
  kind : h'.kind c = h.kind c
  refcount : h'.refcount c = h.refcount c

theorem describe_eq_of_appearance (hc : h'.appearance? c = h.appearance? c) :
    h'.describe c = h.describe c := by
  unfold describe cell
  unfold appearance? at hc
  cases hx : h.cell? c with
  | none =>
    rw [hx, Option.map_none, Option.map_eq_none_iff] at hc
    rw [hc]
  | some x =>
    rw [hx, Option.map_some, Option.map_eq_some_iff] at hc
    obtain ⟨x', hx', hsame⟩ := hc
    obtain ⟨hkind, hpackage⟩ := Prod.mk.inj hsame
    rw [hx']
    simp only [bind, Except.bind, hkind, hpackage]

/-- A cell that is the same is read alike if the targets of references look the same. -/
theorem readsAlike_of_cell (hc : h'.cell? c = h.cell? c)
    (hlook : ∀ d, h'.appearance? d = h.appearance? d) : ReadsAlike h h' c := by
  have hcell : h'.cell c = h.cell c := by rw [cell, cell, hc]
  have hscalar : h'.scalar c = h.scalar c := by rw [scalar, scalar, hcell]
  refine ⟨by rw [toInt, toInt, hscalar], ?_, by rw [isTrue, isTrue, hscalar], by rw [kind, kind, hcell],
    by rw [refcount, refcount, hcell]⟩
  rw [toBytes, toBytes, hcell]
  simp only [fun d => describe_eq_of_appearance (hlook d)]

theorem toBytes_of_text {t : ByteText} (hc : h.scalar c = .ok s) (ht : s.text = some t) :
    h.toBytes c = .ok t.bytes := by
  obtain ⟨x, hx, hs⟩ := scalar_eq_ok_iff.1 hc
  rw [toBytes, cell_ok hx]
  dsimp only [bind, Except.bind]
  rw [hs]
  dsimp only
  rw [ht]
  rfl

def withNumber (h : Heap) (c : CellId) (x : Cell) (s : Scalar) : Heap :=
  h.setCell c (some { x with content := .scalar s.numified })

section
variable (hc : h.cell? c = some x) (hs : x.content = .scalar s)
include hc

theorem cell?_withNumber : (h.withNumber c x s).cell? c = some { x with content := .scalar s.numified } := by
  rw [withNumber, cell?_setCell, if_pos ⟨rfl, lt_of_cell? hc⟩]

theorem scalar_withNumber : (h.withNumber c x s).scalar c = .ok s.numified :=
  scalar_eq_ok_iff.2 ⟨_, cell?_withNumber hc, rfl⟩

omit hc in
theorem cell?_withNumber_of_ne (hd : d ≠ c) : (h.withNumber c x s).cell? d = h.cell? d := by
  rw [withNumber, cell?_setCell, if_neg fun he => hd he.1.symm]

include hs

theorem run_numify : (numify c).run h = (.ok s.toNum, h.withNumber c x s) := by
  rw [numify, run_bind_ok (by rw [run_query, scalar_eq_ok_iff.2 ⟨x, hc, hs⟩]),
    run_bind_ok (run_setContent hc _)]
  rfl

theorem appearance?_withNumber (d : CellId) : (h.withNumber c x s).appearance? d = h.appearance? d := by
  by_cases hd : d = c
  · subst hd
    rw [appearance?, appearance?, cell?_withNumber hc, hc, Option.map_some, Option.map_some]
    exact congrArg (fun k => some (k, x.package)) (s.kind_numified.trans (by rw [hs]; rfl))
  · rw [appearance?, appearance?, cell?_withNumber_of_ne hd]

theorem readsAlike_withNumber (d : CellId) : ReadsAlike h (h.withNumber c x s) d := by
  by_cases hd : d = c
  · subst hd
    have hold : h.scalar d = .ok s := scalar_eq_ok_iff.2 ⟨x, hc, hs⟩
    have hnew : (h.withNumber d x s).scalar d = .ok s.numified := scalar_withNumber hc
    refine ⟨?_, ?_, ?_, ?_, ?_⟩
    · rw [toInt, toInt, hold, hnew]
      exact congrArg Except.ok s.toInt_numified
    · cases ht : s.text with
      | none =>
        -- without a string nothing is kept, and what the scalar's number or reference writes is as before
        rw [withNumber, Scalar.numified_of_no_text ht, ← hs, setCell_of_cell? hc]
      | some t => rw [toBytes_of_text hold ht, toBytes_of_text hnew (s.numified_text.trans ht)]
    · rw [isTrue_ok hold, isTrue_ok hnew, s.isTrue_numified]
    · rw [kind, kind, cell_ok hc, cell_ok (cell?_withNumber hc)]
      exact congrArg Except.ok (s.kind_numified.trans (by rw [hs]; rfl))
    · rw [refcount, refcount, cell_ok hc, cell_ok (cell?_withNumber hc)]
      rfl
  · exact readsAlike_of_cell (cell?_withNumber_of_ne hd) (appearance?_withNumber hc hs)

end

theorem run_numify_error {e : Fault} (hs : h.scalar c = .error e) : (numify c).run h = (.error e, h) := by
  rw [numify, run_bind_error (by rw [run_query, hs])]

/-- The answer is the number that the cell is read as. A string that gave one is numeric from then on. -/
theorem numify_answer (h : Heap) (c : CellId) :
    ((numify c).run h).1 = h.toNum c ∧
      ∀ f, ((numify c).run h).2.flags c = .ok f → f.text = true → f.isNumeric = true := by
  cases hold : h.scalar c with
  | error e =>
    rw [run_numify_error hold, toNum, flags, hold]
    exact ⟨rfl, nofun⟩
  | ok s =>
    obtain ⟨x, hc, hs⟩ := scalar_eq_ok_iff.1 hold
    rw [run_numify hc hs, toNum, hold, flags, scalar_withNumber hc]
    refine ⟨rfl, fun f hf htext => ?_⟩
    obtain rfl := Except.ok.inj hf
    obtain ⟨t, ht⟩ : ∃ t, s.text = some t := by
      rw [← s.numified_text]
      exact Option.isSome_iff_exists.1 htext
    exact Scalar.isNumeric_numified ht

/-- Whichever cell is used as a number, each cell is read afterwards as before: as an integer, as a string,
as a truth value and in its kind and count. The other cells and the symbols stay what they are, and a second
use changes nothing at all. -/
theorem numify_unseen (h : Heap) (c : CellId) :
    (∀ d, ReadsAlike h ((numify c).run h).2 d) ∧
      (∀ d, d ≠ c → ((numify c).run h).2.cell? d = h.cell? d) ∧
      ((numify c).run h).2.symbols = h.symbols ∧
      ((numify c).run ((numify c).run h).2).2 = ((numify c).run h).2 := by
  cases hold : h.scalar c with
  | error e =>
    have hrun := run_numify_error hold
    rw [hrun, hrun]
    exact ⟨fun _ => ⟨rfl, rfl, rfl, rfl, rfl⟩, fun _ _ => rfl, rfl, rfl⟩
  | ok s =>
    obtain ⟨x, hc, hs⟩ := scalar_eq_ok_iff.1 hold
    rw [run_numify hc hs]
    refine ⟨readsAlike_withNumber hc hs, fun d => cell?_withNumber_of_ne, rfl, ?_⟩
    rw [run_numify (cell?_withNumber hc) rfl, withNumber, Scalar.numified_numified]
    exact setCell_of_cell? (cell?_withNumber hc)

/-- The number itself is not among what is read alike: the integer that is kept has no sign at zero. -/
example : (Scalar.ofText " -0").numified.toNum ≠ (Scalar.ofText " -0").toNum := by decide +kernel

end Heap

end Embedding
