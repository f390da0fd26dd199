import Embedding.Proofs.Host.Seeing

/-!
# Which cells the host sees

A cell has a value for the host, or there is a reason why not: it is a glob, it refers to a cell of a sort
that does not cross, or its text is malformed. Neither counts nor places of iterations matter to that.
-/

namespace Embedding

open Heap

/-- Whether a reference to a cell of the kind crosses if the cell is no object. -/
def Kind.presents : Kind → Except HostError Unit
  | .array | .hash | .code => .ok ()
  | kind => .error (.conversion s!"{kind.refName} reference" "host value"
      "only array, hash, code and blessed references cross the bridge")

def Cell.presentsTarget (x : Cell) : Except HostError Unit :=
  match x.package with
  | some _ => .ok ()
  | none => x.content.kind.presents

def Heap.presentsScalar (h : Heap) (x : Scalar) : Except HostError Unit :=
  match x.ref with
  | some target => ((h.cell? target).map Cell.presentsTarget).getD (.ok ())
  | none => x.seen.map fun _ => ()

def Heap.presentsContent (h : Heap) : Content → Except HostError Unit
  | .glob _ => .error (.conversion "GLOB" "host value" "globs have no host representation")
  | .scalar x => h.presentsScalar x
  | .array _ | .hash .. | .code .. => .ok ()

/-- Whether a cell has a value for the host, and why it has none. -/
def Heap.presents (h : Heap) (c : CellId) : Except HostError Unit :=
  ((h.cell? c).map fun x => h.presentsContent x.content).getD (.ok ())

variable {w : World} {s : SessionId} {setup : Setup} {g h h' : Heap} {c : CellId} {x : Cell}
  {σ τ : List CellId} {n : Nat}

theorem Heap.presents_eq (hx : h.cell? c = some x) : h.presents c = h.presentsContent x.content := by
  rw [presents, hx]
  rfl

theorem Heap.presentsScalar_ref {x : Scalar} (href : x.ref = some c) :
    h.presentsScalar x = ((h.cell? c).map Cell.presentsTarget).getD (.ok ()) := by
  rw [presentsScalar, href]

theorem Heap.presentsScalar_plain {x : Scalar} (href : x.ref = none) :
    h.presentsScalar x = x.seen.map fun _ => () := by
  rw [presentsScalar, href]

theorem turning_kind {y z : Content} (ht : Turning c y z) : z.kind = y.kind := by
  obtain rfl | ⟨entries, i, j, rfl, rfl⟩ := ht
  · rfl
  · rfl

theorem Heap.Firm.presentsTarget {target : CellId} (hf : h.Firm Turning h') (hlive : h.isLive target)
    (hlive' : h'.isLive target) :
    (h'.cell? target).map Cell.presentsTarget = (h.cell? target).map Cell.presentsTarget := by
  obtain ⟨x, hx⟩ := exists_cell hlive
  obtain ⟨x', hx'⟩ := exists_cell hlive'
  obtain ⟨y, hy, hturn, hpackage⟩ := hf.cells target x' (lt_of_cell? hx) hx'
  cases hx.symm.trans hy
  rw [hx, hx', Option.map_some, Option.map_some, Cell.presentsTarget, Cell.presentsTarget, hpackage,
    turning_kind hturn]

theorem Heap.Firm.presents (hf : h.Firm Turning h') (hs : h.Sound σ) (hs' : h'.Sound τ)
    (hlive : h.isLive c) (hlive' : h'.isLive c) : h'.presents c = h.presents c := by
  obtain ⟨x, hx⟩ := exists_cell hlive
  obtain ⟨x', hx'⟩ := exists_cell hlive'
  obtain ⟨y, hy, hturn, -⟩ := hf.cells c x' (lt_of_cell? hx) hx'
  cases hx.symm.trans hy
  rw [presents_eq hx, presents_eq hx']
  obtain hequal | ⟨entries, i, j, hhash, hhash'⟩ := hturn
  · rw [hequal]
    cases hcontent : x.content with
    | scalar y =>
      change h'.presentsScalar y = h.presentsScalar y
      cases href : y.ref with
      | none => rw [presentsScalar_plain href, presentsScalar_plain href]
      | some target =>
        have hchild : target ∈ x.content.children := by
          rw [hcontent]
          exact Option.mem_toList.mpr href
        have hlive := hs.isLive_child hx hchild
        have hlive' := hs'.isLive_child hx' (hequal ▸ hchild)
        rw [presentsScalar_ref href, presentsScalar_ref href, hf.presentsTarget hlive hlive']
    | array items => rfl
    | hash entries cursor => rfl
    | code name body => rfl
    | glob name => rfl
  · rw [hhash, hhash']
    rfl

section
variable (hk : w.KeptOn s setup g)
include hk

/-- Reading a cell fails exactly if the cell has no value, and says why. -/
theorem run_value_presents (hq : h.Quiet) (hs : h.Sound σ) (hlive : h.isLive c) :
    ((Handle.value ⟨s, c⟩).run (w.put s h n)).1.map (fun _ => ()) = h.presents c := by
  obtain ⟨x, hx⟩ := exists_cell hlive
  have hkind : h.kind c = .ok x.content.kind := by
    rw [Heap.kind, cell_ok hx]
    rfl
  have hasked := run_ask_cell hk (n := n) hq "to_host" (.kind ⟨s, c⟩) rfl (congrArg (·, h) hkind)
  rw [presents_eq hx]
  cases hcontent : x.content with
  | array items =>
    rw [hcontent] at hasked
    rw [Handle.value, valueWith, run_bind_ok hasked]
    rfl
  | hash entries cursor =>
    rw [hcontent] at hasked
    rw [Handle.value, valueWith, run_bind_ok hasked]
    rfl
  | code name body =>
    rw [hcontent] at hasked
    rw [Handle.value, valueWith, run_bind_ok hasked]
    rfl
  | glob name =>
    rw [hcontent] at hasked
    rw [Handle.value, valueWith, run_bind_ok hasked]
    rfl
  | scalar y =>
    have hscalar : h.scalar c = .ok y := scalar_eq_ok_iff.mpr ⟨x, hx, hcontent⟩
    change _ = h.presentsScalar y
    cases href : y.ref with
    | none => rw [run_value_scalar hk hq hscalar href, presentsScalar_plain href]
    | some target =>
      have hchild : target ∈ x.content.children := by
        rw [hcontent]
        exact Option.mem_toList.mpr href
      obtain ⟨z, hz⟩ := exists_cell (hs.isLive_child hx hchild)
      rw [presentsScalar_ref href, hz, Option.map_some, Option.getD_some, Cell.presentsTarget]
      cases hpackage : z.package with
      | some package =>
        obtain ⟨_, _, hrun, -⟩ := run_value_object hk (n := n) hq hs hscalar href hz hpackage
        rw [hrun]
        rfl
      | none =>
        rw [run_value_ref hk hq hscalar href hz hpackage (run_retain hz)]
        cases z.content.kind <;> rfl

end

end Embedding
