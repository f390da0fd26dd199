import Embedding.Proofs.Heap.Contents
import Embedding.Proofs.Heap.Gone

/-!
# Consistent scalars

What an interpreter makes by itself is consistent, and whatever it copies was so before. Its scalars stay
among the consistent ones therefore, whoever makes requests to it and whatever its bodies do. They stay
among those whose text is text as well, as long as every request keeps to that.
-/

namespace Embedding

theorem Request.brought_consistent {κ : Type} {shape : Shape} (request : Request κ shape) :
    ∀ x ∈ request.brought?, x.Consistent := fun _ hx => by
  obtain ⟨bytes, utf8, rfl⟩ := exists_of_brought hx
  exact Scalar.consistent_ofBytes bytes utf8

theorem Request.brought_sound {κ : Type} {shape : Shape} {request : Request κ shape}
    (htextual : request.isTextual = true) : ∀ x ∈ request.brought?, x.Sound :=
  fun x hx => ⟨request.brought_consistent x hx, by
    rw [Option.mem_def] at hx
    simpa [Request.isTextual, hx] using htextual⟩

theorem Content.within_of_becomes {V : Scalar → Prop} {old new : Content} (hbecomes : old.Becomes new) :
    new.Within V := by
  cases hbecomes <;> nofun

namespace Heap

variable {V : Scalar → Prop} {h : Heap} {c : CellId} {s : Scalar}

/-- Every scalar in the heap is among these. -/
def AllScalars (V : Scalar → Prop) (h : Heap) : Prop := h.AllContents (·.Within V)

theorem AllScalars.scalar (hall : h.AllScalars V) (hs : h.scalar c = .ok s) : V s := by
  obtain ⟨x, hx, hcontent⟩ := scalar_eq_ok_iff.1 hs
  exact hall c x hx s hcontent

theorem stable_allScalars (hample : Scalar.Ample V) (hnumified : ∀ {s}, V s → V s.numified) :
    Stable .all (AllScalars V) V where
  values := hample
  held hall hx := hall _ _ hx
  allocate hall _ hcontent := AllContents.allocate hall hcontent
  recount {_ _ x} hall hx _ _ := AllContents.setCell hall (hall _ x hx)
  drop hall c := AllContents.shrinks hall (shrinks_drop _ _ c)
  setContainer hall _ hbecomes _ := AllContents.setCell hall (Content.within_of_becomes hbecomes)
  setScalar hall _ _ _ _ hs := AllContents.setCell hall (Content.within_scalar hs)
  setNumified hall hx hs :=
    AllContents.setCell hall (Content.within_scalar (hnumified (hall _ _ hx _ hs)))
  setPackage {_ _ x _} hall hx _ := AllContents.setCell hall (hall _ x hx)
  define hall _ _ _ _ := hall
  load hall _ := hall
  made _ := trivial
  named _ _ := trivial

theorem allScalars_initial (hample : Scalar.Ample V) : AllScalars V .initial := by
  rintro ⟨_ | _ | i⟩ x hx
  · cases hx
  · cases hx
    exact Content.within_scalar (hample.bytes [])
  · cases hx

theorem Stable.allScalars_boot (hstable : Stable .all (AllScalars V) V) {setup : Setup} {args : List String}
    (hboot : (Heap.boot setup args).run .initial = (.ok (), h)) : h.AllScalars V := by
  have := hstable.boot (allBodies_true setup) args _ (allScalars_initial hstable.values)
  rwa [hboot] at this

theorem stable_sound : Stable .all (AllScalars Scalar.Sound) Scalar.Sound :=
  stable_allScalars (Scalar.ample_consistent.and Scalar.ample_textual) fun hs =>
    ⟨hs.1.numified, (Scalar.isTextual_numified _).trans hs.2⟩

end Heap

end Embedding
