import Embedding.Proofs.Heap.References
import Embedding.Proofs.Host.Arrivals
import Embedding.Proofs.Host.Presenting

/-!
# References cross the boundary

A host that reads a reference gets a view of the cell that the reference refers to, and a view that it
hands over becomes a reference to the cell that it stands for. Nothing is made on the way but scalars.
-/

namespace Embedding

open Heap
open HostM (holding)

variable {origin w w' : World} {hs : List Handle} {s : SessionId} {setup : Setup} {g h h' : Heap} {v u : Value}
  {a c t : CellId} {x : Scalar} {y : Cell} {σ : List CellId} {n : Nat}

/-- The cell that a view stands for. That of an object is what its reference refers to at present. -/
def Value.referent? (h : Heap) : Value → Option CellId
  | .array view => some view.cell.cell
  | .hash view => some view.cell.cell
  | .callable (.code cell) => some cell.cell
  | .object view => (h.target view.reference.cell).toOption
  | _ => none

/-- What a reference to the cell `t` is seen as: an object of the class that the cell has, or the view of a
cell of its kind. -/
def Cell.SeenAs (y : Cell) (s : SessionId) (t : CellId) (u : Value) : Prop :=
  match y.package with
  | some package => ∃ reference, u = .object ⟨⟨s, reference⟩, package⟩
  | none => viewOf ⟨s, t⟩ y.content.kind = some u

/-- A reference to the cell was read. -/
def Cell.Returns (y : Cell) (s : SessionId) (t : CellId) (h : Heap) (r : Except HostError Value) : Prop :=
  match y.presentsTarget with
  | .ok () => ∃ u, r = .ok u ∧ y.SeenAs s t u ∧ u.referent? h = some t
  | .error e => r = .error e

/-- A reading, and the stakes in what was read. -/
structure Heap.Reads (h : Heap) (s : SessionId) (t : CellId) (σ : List CellId) (r : Except HostError Value)
    (h' : Heap) : Prop where
  firm : h.Firm Unchanged h'
  adds : h.AddsScalars h'
  sound : h'.Sound ((hostStakes Value.handles r).map Handle.cell ++ σ)
  returns : ∃ y, h.cell? t = some y ∧ y.Returns s t h' r

/-! ## Views -/

theorem viewOf_handles {cell : Handle} {kind : Kind} (hu : viewOf cell kind = some u) :
    u.handles = [cell] ∧ u.referent? h = some cell.cell := by
  cases kind <;> cases hu <;> exact ⟨rfl, rfl⟩

theorem Value.referent?_firm (hu : u.referent? h = some t) (hf : h.Firm Unchanged h')
    (hlive : ∀ c ∈ u.handles, h'.isLive c.cell) : u.referent? h' = some t := by
  cases u with
  | array view => exact hu
  | hash view => exact hu
  | callable target =>
    cases target with
    | code cell => exact hu
    | method receiver name => cases hu
  | object view =>
    have ht := hf.target_ok (eq_ok_of_toOption hu) (hlive _ (List.mem_singleton.2 rfl))
    exact congrArg Except.toOption ht
  | _ => cases hu

theorem Cell.returns_of_view (hpackage : y.package = none) (hu : viewOf ⟨s, t⟩ y.content.kind = some u) :
    y.Returns s t h (.ok u) := by
  unfold Cell.Returns Cell.presentsTarget Cell.SeenAs
  rw [hpackage]
  dsimp only
  generalize y.content.kind = kind at hu ⊢
  cases kind
  case array | hash | code => cases hu; exact ⟨_, rfl, rfl, rfl⟩
  all_goals cases hu

theorem Cell.returns_of_no_view (hpackage : y.package = none)
    (hnone : viewOf ⟨s, t⟩ y.content.kind = none) :
    y.Returns s t h (.error (.conversion s!"{y.content.kind.refName} reference" "host value"
      "only array, hash, code and blessed references cross the bridge")) := by
  unfold Cell.Returns Cell.presentsTarget
  rw [hpackage]
  dsimp only
  generalize y.content.kind = kind at hnone ⊢
  cases kind
  case array | hash | code => cases hnone
  all_goals rfl

theorem Cell.Returns.firm {r : Except HostError Value} (hr : y.Returns s t h r) (hf : h.Firm Unchanged h')
    (hlive : ∀ c ∈ hostStakes Value.handles r, h'.isLive c.cell) : y.Returns s t h' r := by
  unfold Cell.Returns at hr ⊢
  split at hr
  · obtain ⟨u, rfl, hseen, hreferent⟩ := hr
    exact ⟨u, rfl, hseen, Value.referent?_firm hreferent hf hlive⟩
  · exact hr

theorem ofOption_takeValue? (c : Handle) :
    Value.ofOption <$> takeValue? (some c) = holding [c] c.value := by
  rw [takeValue?, Functor.map_map]
  exact id_map _

section
variable (hk : w.KeptOn s setup g)
include hk

/-- A reference is read as what its target is. -/
theorem run_value_reference (hq : h.Quiet) (hs : h.Sound σ) (hc : h.target c = .ok t) : ∃ r h',
    (Handle.value ⟨s, c⟩).run (w.put s h n) =
        (r, w.put s h' (n + (hostStakes Value.handles r).length)) ∧ h.Reads s t σ r h' := by
  obtain ⟨x, hscalar, href⟩ := scalar_of_target hc
  have hlive := hs.isLive_target hc
  obtain ⟨y, hy⟩ := exists_cell hlive
  cases hpackage : y.package with
  | some package =>
    obtain ⟨r, h', hrun, hf, hadds, hs', hr⟩ := run_value_object hk (n := n) hq hs hscalar href hy hpackage
    refine ⟨_, h', hrun, hf, hadds, hs', y, hy, ?_⟩
    unfold Cell.Returns Cell.presentsTarget Cell.SeenAs
    rw [hpackage]
    exact ⟨_, rfl, ⟨r, rfl⟩, congrArg Except.toOption (target_ref hr rfl)⟩
  | none =>
    obtain ⟨_, h₁, hretain, -, hs₁⟩ := gives_retain hlive σ hs
    have hg := retain_grows h t
    have hadds := addsScalars_retain h t
    rw [hretain] at hg hadds
    have hrun := run_value_ref hk (n := n) hq hscalar href hy hpackage hretain
    cases hview : viewOf ⟨s, t⟩ y.content.kind with
    | some u =>
      rw [hview] at hrun
      have hu : u.handles = [⟨s, t⟩] := (viewOf_handles (h := h) hview).1
      refine ⟨.ok u, h₁, ?_, hg.firm, hadds, ?_, y, hy, Cell.returns_of_view hpackage hview⟩
      · rw [hrun, hostStakes, hu]
        rfl
      · rw [hostStakes, hu]
        exact hs₁
    | none =>
      rw [hview] at hrun
      obtain ⟨h₂, hrelease, hshrinks, hs₂⟩ := hs₁.run_release
      rw [World.releaseAll, List.foldl_cons, List.foldl_nil, hk.release hrelease] at hrun
      exact ⟨_, h₂, hrun, hg.firm.unchanged hshrinks.firm, hadds.trans hshrinks.addsScalars, hs₂, y, hy,
        Cell.returns_of_no_view hpackage hview⟩

theorem run_held_reference (hq : h.Quiet) (hs : h.Sound (c :: σ)) (hc : h.target c = .ok t) : ∃ r h',
    (holding [⟨s, c⟩] (Handle.value ⟨s, c⟩)).run (w.put s h (n + 1)) =
        (r, w.put s h' (n + (hostStakes Value.handles r).length)) ∧ h.Reads s t σ r h' := by
  obtain ⟨r, h₁, hrun, hreads⟩ := run_value_reference hk (n := n + 1) hq hs hc
  obtain ⟨h₂, hrelease, hshrinks, hs₂⟩ := (hreads.sound.perm List.perm_middle).run_release
  obtain ⟨y, hy, hreturns⟩ := hreads.returns
  refine ⟨r, h₂, ?_, hreads.firm.unchanged hshrinks.firm, hreads.adds.trans hshrinks.addsScalars, hs₂, y, hy,
    hreturns.firm hshrinks.firm fun d hd => hs₂.isLive (List.mem_append_left _ (List.mem_map_of_mem hd))⟩
  rw [HostM.run_holding, hrun, World.releaseAll, List.foldl_cons, List.foldl_nil, Nat.add_right_comm,
    hk.release hrelease]

end

end Embedding
