import Embedding.Proofs.Heap.Bonds
import Embedding.Proofs.Heap.Lists
import Mathlib.Data.List.Basic

/-!
# Where methods are found

What sub a class has for a method depends on the names of the subs and on the texts in the arrays `@ISA`.
The variable `$@` is in no array, so what is found does not change with the errors that are left there.
-/

namespace Embedding

open Heap

variable {h h' : Heap} {σ τ : List CellId} {c e t : CellId} {x x' : Cell}

def Latitude.all : Latitude := ⟨fun _ => True, fun _ _ => True, fun _ => True⟩

theorem Latitude.free_all : Latitude.all.Free := ⟨fun _ => trivial, fun _ _ => trivial⟩

namespace Heap

/-! ## The error variable is in no array -/

/-- The cell is the error variable, and no array has it among its items. -/
structure Unlisted (e : CellId) (h : Heap) : Prop where
  old : e.index < h.cells.size
  named : h.symbol? .scalar errorName = some e
  items : ∀ c x items, h.cell? c = some x → x.content = .array items → e ∉ items

theorem Unlisted.errorCell (hu : Unlisted e h) : h.errorCell = .ok e := errorCell_eq_ok_iff.2 hu.named

theorem Unlisted.evolves (hu : Unlisted e h) (hev : h.Evolves h')
    (hitems : ∀ c x' items, h'.cell? c = some x' → x'.content = .array items → e ∉ items) :
    Unlisted e h' :=
  ⟨Nat.lt_of_lt_of_le hu.old hev.size, hev.symbols _ _ _ nofun hu.named, hitems⟩

theorem Unlisted.setCell (hu : Unlisted e h) {new : Cell}
    (hnew : ∀ items, new.content = .array items → e ∉ items) : Unlisted e (h.setCell c (some new)) where
  old := by
    rw [Heap.setCell, Array.size_setIfInBounds]
    exact hu.old
  named := hu.named
  items d y items hy hcontent := by
    rw [cell?_setCell] at hy
    split at hy
    · cases hy
      exact hnew items hcontent
    · exact hu.items d y items hy hcontent

/-- An array gets new cells only, and the variable is an old one. -/
theorem Unlisted.becomes (hu : Unlisted e h) (hx : h.cell? c = some x) {content : Content}
    (hbecomes : x.content.Becomes content)
    (hnew : ∀ d ∈ content.children, d ∈ x.content.children ∨ Since (Unlisted e) d) :
    ∀ items, content = .array items → e ∉ items := by
  rintro items' rfl he
  cases hcontent : x.content with
  | array items =>
    rw [hcontent] at hnew
    rcases hnew e (Array.mem_toList_iff.2 he) with hold | ⟨h₀, hu₀, hsize⟩
    · exact hu.items c x items hx hcontent (Array.mem_toList_iff.1 hold)
    · exact Nat.not_le.2 hu₀.old hsize
  | _ =>
    rw [hcontent] at hbecomes
    cases hbecomes

theorem stable_unlisted (e : CellId) : Stable .all (Unlisted e) where
  allocate {h content} hu hmade _ := by
    refine hu.evolves (grows_allocate h content).evolves fun c x items hx hcontent he => ?_
    rw [cell?_allocate] at hx
    split at hx
    · cases hx
      cases hcontent
      obtain rfl : items = #[] := hmade
      exact Array.not_mem_empty e he
    · exact hu.items c x items hx hcontent he
  recount {_ c x} hu hx _ _ := hu.setCell fun items => hu.items c x items hx
  drop {h} hu c := by
    have hs := shrinks_drop h.cells.size h c
    refine hu.evolves hs.evolves fun c x' items hx' hcontent => ?_
    obtain ⟨x, hx, hsame, -⟩ := hs.cells c x' hx'
    exact hu.items c x items hx (hsame.symm.trans hcontent)
  setContainer hu hx hbecomes hnew := hu.setCell (hu.becomes hx hbecomes hnew)
  setScalar hu _ _ _ _ _ := hu.setCell nofun
  setNumified hu _ _ := hu.setCell nofun
  setPackage {_ c x _} hu hx _ := hu.setCell fun items => hu.items c x items hx
  define hu _ _ _ hfree := ⟨hu.old, (evolves_define hfree).symbols _ _ _ nofun hu.named, hu.items⟩
  load hu _ := ⟨hu.old, hu.named, hu.items⟩
  made _ := trivial
  named _ _ := trivial

theorem unlisted_initial : Unlisted ⟨1⟩ .initial where
  old := by decide
  named := rfl
  items := by
    rintro ⟨_ | _ | i⟩ x items hx hcontent
    · cases hx
    · cases hx
      cases hcontent
    · cases hx

/-! ## What does not depend on the error variable -/

/-- Nothing has changed but the value of a scalar, which is no reference before or after. -/
structure Rewritten (e : CellId) (h h' : Heap) : Prop where
  firm : h.Firm (Besides e) h'
  before : ∃ s, h.scalar e = .ok s ∧ s.ref = none
  after : ∃ s, h'.scalar e = .ok s ∧ s.ref = none

theorem refName_scalar {s : Embedding.Scalar} (hs : s.ref = none) :
    (Content.scalar s).kind.refName = Kind.refName .scalar := by
  have hflag : s.flags.ref = false := by
    rw [Scalar.flags, hs]
    rfl
  rw [Content.kind, Scalar.kind, hflag, if_neg Bool.false_ne_true]
  split <;> rfl

namespace Rewritten

variable (hw : Rewritten e h h')
include hw

theorem cells (hx : h.cell? c = some x) (hx' : h'.cell? c = some x') :
    (c ≠ e → x'.content = x.content) ∧ x'.package = x.package ∧
      x'.content.kind.refName = x.content.kind.refName := by
  obtain ⟨y, hy, hsame, hpackage⟩ := hw.firm.cells c x' (lt_of_cell? hx) hx'
  obtain rfl := Option.some.inj (hx.symm.trans hy)
  refine ⟨hsame, hpackage, ?_⟩
  by_cases hc : c = e
  · obtain ⟨s, hs, href⟩ := hw.before
    obtain ⟨s', hs', href'⟩ := hw.after
    rw [← hc] at hs hs'
    rw [content_of_scalar hs hx, content_of_scalar hs' hx', refName_scalar href, refName_scalar href']
  · rw [hsame hc]

theorem ne_of_content (hx : h.cell? c = some x) (hcontent : ∀ s, x.content ≠ .scalar s) : c ≠ e := by
  rintro rfl
  obtain ⟨s, hs, -⟩ := hw.before
  exact hcontent s (content_of_scalar hs hx)

theorem symbol? (slot : Slot) (name : String) : h'.symbol? slot name = h.symbol? slot name := by
  rw [Heap.symbol?, Heap.symbol?, hw.firm.symbols]

theorem describe (hlive : h.isLive t) (hlive' : h'.isLive t) : h'.describe t = h.describe t := by
  obtain ⟨x, hx⟩ := exists_cell hlive
  obtain ⟨x', hx'⟩ := exists_cell hlive'
  obtain ⟨-, hpackage, hname⟩ := hw.cells hx hx'
  simp only [Heap.describe, cell_ok hx, cell_ok hx', bind, Except.bind, hpackage, hname]

variable (hs : h.Sound σ) (hs' : h'.Sound τ)
include hs hs'

theorem toBytes (hc : c ≠ e) (hlive : h.isLive c) (hlive' : h'.isLive c) : h'.toBytes c = h.toBytes c := by
  obtain ⟨x, hx⟩ := exists_cell hlive
  obtain ⟨x', hx'⟩ := exists_cell hlive'
  have hcontent := (hw.cells hx hx').1 hc
  have hdescribe {t : CellId} (ht : t ∈ x.content.children) : h'.describe t = h.describe t :=
    hw.describe (hs.isLive_child hx ht) (hs'.isLive_child hx' (hcontent ▸ ht))
  simp only [Heap.toBytes, cell_ok hx, cell_ok hx', bind, Except.bind, hcontent]
  split
  · next s hscalar =>
    split
    · rfl
    · rfl
    · rfl
    · next href =>
      rw [hdescribe]
      rw [hscalar, Content.children, href]
      exact List.mem_singleton.2 rfl
    · rfl
  · rfl
  · rw [hw.describe hlive hlive']

theorem toText (hc : c ≠ e) (hlive : h.isLive c) (hlive' : h'.isLive c) : h'.toText c = h.toText c := by
  rw [Heap.toText, Heap.toText, hw.toBytes hs hs' hc hlive hlive']

theorem className (hc : c ≠ e) (hlive : h.isLive c) (hlive' : h'.isLive c) :
    h'.className c = h.className c := by
  obtain ⟨x, hx⟩ := exists_cell hlive
  obtain ⟨x', hx'⟩ := exists_cell hlive'
  have hcontent := (hw.cells hx hx').1 hc
  have hkind : h'.kind c = h.kind c := by
    simp only [Heap.kind, cell_ok hx, cell_ok hx', bind, Except.bind, hcontent]
  have htarget : h'.target c = h.target c := by
    simp only [Heap.target, cell_ok hx, cell_ok hx', bind, Except.bind, hcontent]
  rw [Heap.className, Heap.className, hkind, htarget]
  cases ht : h.target c with
  | error fault => rfl
  | ok t =>
    have hchild : t ∈ x.content.children := by
      rw [Heap.target, cell_ok hx] at ht
      dsimp only [bind, Except.bind] at ht
      split at ht
      · next s hscalar =>
        split at ht
        · next target href =>
          cases ht
          rw [hscalar, Content.children, href]
          exact List.mem_singleton.2 rfl
        · cases ht
      · cases ht
    obtain ⟨y, hy⟩ := exists_cell (hs.isLive_child hx hchild)
    obtain ⟨y', hy'⟩ := exists_cell (hs'.isLive_child hx' (hcontent ▸ hchild))
    have hpackage := (hw.cells hy hy').2.1
    simp only [bind, Except.bind, cell_ok hy, cell_ok hy', hpackage]

variable (hu : Unlisted e h)
include hu

theorem strings (hlive : h.isLive c) (hlive' : h'.isLive c) : h'.strings c = h.strings c := by
  obtain ⟨x, hx⟩ := exists_cell hlive
  obtain ⟨x', hx'⟩ := exists_cell hlive'
  cases hitems : h.items c with
  | ok items =>
    obtain ⟨y, hy, hcontent⟩ := items_eq_ok_iff.1 hitems
    obtain rfl := Option.some.inj (hx.symm.trans hy)
    have hne := hw.ne_of_content hx fun s => by rw [hcontent]; nofun
    have hcontent' := ((hw.cells hx hx').1 hne).trans hcontent
    have hitems' : h'.items c = .ok items := items_eq_ok_iff.2 ⟨x', hx', hcontent'⟩
    rw [Heap.strings, Heap.strings, hitems, hitems']
    refine List.filterMap_congr fun d hd => ?_
    have hde : d ≠ e := fun he => hu.items c x items hx hcontent (he ▸ Array.mem_toList_iff.1 hd)
    rw [hw.toText hs hs' hde (hs.isLive_item hitems hd) (hs'.isLive_item hitems' hd)]
  | error fault =>
    -- no array becomes of a cell that was none
    have hnone : ∀ items, h'.items c ≠ .ok items := by
      intro items hitems'
      obtain ⟨y', hy', hcontent'⟩ := items_eq_ok_iff.1 hitems'
      obtain rfl := Option.some.inj (hx'.symm.trans hy')
      by_cases hc : c = e
      · subst hc
        obtain ⟨s, hscalar, -⟩ := hw.after
        cases hcontent'.symm.trans (content_of_scalar hscalar hx')
      · rw [items_eq_ok_iff.2 ⟨x, hx, ((hw.cells hx hx').1 hc).symm.trans hcontent'⟩] at hitems
        cases hitems
    rw [Heap.strings, Heap.strings, hitems]
    cases hitems' : h'.items c with
    | ok items => exact absurd hitems' (hnone items)
    | error fault' => rfl

theorem parents : h'.parents = h.parents := by
  funext className
  rw [Heap.parents, Heap.parents, Heap.arrayStrings, Heap.arrayStrings, hw.symbol?]
  cases hname : h.symbol? .array (Name.qualify (Name.member className "ISA")) with
  | none => rfl
  | some c =>
    obtain ⟨x, hx, -⟩ := hs.named.sorts _ _ _ hname
    obtain ⟨x', hx', -⟩ := hs'.named.sorts _ _ _ ((hw.symbol? _ _).trans hname)
    exact hw.strings hs hs' hu (isLive_of_cell? hx) (isLive_of_cell? hx')

theorem classBound : h'.classBound = h.classBound := by
  rw [Heap.classBound, Heap.classBound, hw.firm.symbols]
  refine List.foldl_ext _ _ _ fun n c hc => ?_
  have hcells : c ∈ h.symbols.cells := by
    simp only [Symbols.cells, List.mem_append]
    exact .inl (.inl (.inr hc))
  have hcells' : c ∈ h'.symbols.cells := by rwa [hw.firm.symbols]
  have hlive := hs.exact.held c (List.mem_append_left _ (List.mem_append_right _ hcells))
  have hlive' := hs'.exact.held c (List.mem_append_left _ (List.mem_append_right _ hcells'))
  rw [hw.strings hs hs' hu hlive hlive']

theorem resolveMethod (className method : String) :
    h'.resolveMethod className method = h.resolveMethod className method := by
  have hown : h'.ownMethod = h.ownMethod := by
    funext method className
    exact hw.symbol? ..
  rw [Heap.resolveMethod, Heap.resolveMethod, hw.parents hs hs' hu, hw.classBound hs hs' hu, hown]

theorem methodOf (className method : String) :
    h'.methodOf className method = h.methodOf className method := by
  rw [Heap.methodOf, Heap.methodOf, hw.symbol?, hw.resolveMethod hs hs' hu]

end Rewritten

end Heap

end Embedding
