import Embedding.Proofs.Equality
import Embedding.Proofs.RoundTrip
import Embedding.Proofs.Views

/-!
# The laws of equality

Among the views that a host has of one session, equality is symmetric and transitive, whatever state the
session is in. Views of arrays, hashes and subs are equal to themselves, and those that were equal once
are equal ever after. Objects and bound methods are told apart by the interpreter alone: without it,
they are not even equal to themselves.
-/

namespace Embedding

open Heap Console

variable {origin w w' : World} {hs hs' : List Handle} {s : SessionId} {u v t : Value} {a b c : Handle}
  {slot : Slot}

/-- The host finds the values to be equal. -/
def World.Equates (w : World) (u v : Value) : Prop := ((u.equal v).run w).1 = .ok true

theorem Reached.equates_iff (hreach : Reached origin w hs) (hfresh : origin.Fresh) :
    w.Equates u v ↔ Alike w u v := by
  obtain ⟨r, w', hrun, hr, -⟩ := decides_equal (decides_sameReferent hfresh hreach) u v
  rw [World.Equates, hrun, ← hr]
  exact ⟨fun h => Except.ok.inj h, congrArg Except.ok⟩

theorem Value.sort?_ne_scalar (hv : v.sort? = some slot) : slot ≠ .scalar := by
  cases v with
  | array | hash => cases hv; nofun
  | callable f => cases f <;> cases hv; nofun
  | _ => cases hv

/-! ## Cells -/

theorem World.SameReferent.symm (h : w.SameReferent a b) : w.SameReferent b a :=
  h.imp fun _ => And.symm

theorem World.SameReferent.trans (hab : w.SameReferent a b) (hbc : w.SameReferent b c) :
    w.SameReferent a c := by
  obtain ⟨d, ha, hb⟩ := hab
  obtain ⟨e, hb', hc⟩ := hbc
  exact ⟨d, ha, hb.unique hb' ▸ hc⟩

theorem World.SameCell.symm (h : w.SameCell a b) : w.SameCell b a :=
  h.imp Eq.symm World.SameReferent.symm

theorem World.SameCell.trans (hab : w.SameCell a b) (hbc : w.SameCell b c) (hsession : a.session = b.session)
    (hsession' : b.session = c.session) : w.SameCell a c := by
  rcases hab.eq_or hsession with rfl | hab
  · exact hbc
  · rcases hbc.eq_or hsession' with rfl | hbc
    · exact .inr hab
    · exact .inr (hab.trans hbc)

theorem Reached.identifies (hreach : Reached origin w hs) (hfresh : origin.Fresh) (hc : c ∈ hs)
    (hstage : (w.session c.session).stage = .initialized) : ∃ d, w.Identifies c d := by
  obtain ⟨h, ha⟩ := hreach.arrived hfresh hstage
  obtain ⟨⟨lost, hs'⟩, hq, -⟩ := ha.good hfresh hc rfl
  obtain ⟨x, hx⟩ := exists_cell (hs'.isLive (List.mem_append_right lost (mem_cellsOf hc)))
  exact ⟨_, hstage, h, by rw [ha.runs.engine], hs'.quiet_iff.1 hq, identity_eq hx⟩

/-- A cell with a sort of its own stands for itself. -/
theorem World.Identifies.eq_of_fits {d : CellId} (hc : w.Identifies c d) (hfits : w.Fits v)
    (hslot : v.sort? = some slot) (hmem : c ∈ v.handles) : c.cell = d := by
  obtain ⟨hstage, h, hh, -, hidentity⟩ := hc
  have hsort := hfits slot hslot c hmem hstage h hh
  exact Except.ok.inj ((hsort.identity (Value.sort?_ne_scalar hslot)).symm.trans hidentity)

/-! ## Views -/

/-- The handle of the receiver, and the name of the method that is bound to it. -/
def Value.receiver? : Value → Option (Handle × Option String)
  | .object o => some (o.reference, none)
  | .callable (.method receiver name) => some (receiver, some name)
  | _ => none

/-- Two views are alike if they are of one sort and of one cell, or if they have the same receiver. -/
theorem alike_iff (hu : u.isView = true) : Alike w u v ↔
    (∃ slot a b, (u.sort? = some slot ∧ u.handles = [a]) ∧ (v.sort? = some slot ∧ v.handles = [b]) ∧
      w.SameCell a b) ∨
    ∃ a b name, u.receiver? = some (a, name) ∧ v.receiver? = some (b, name) ∧ w.SameReferent a b := by
  cases u with
  | array | hash | object => cases v with
    | callable g => cases g <;> simp [Alike, Value.sort?, Value.receiver?]
    | _ => simp [Alike, Value.sort?, Value.receiver?, Value.handles]
  | callable f =>
    cases v with
    | callable g =>
      cases f with
      | code a => cases g <;> simp [Alike, Value.sort?, Value.receiver?, Value.handles, Callable.anchor]
      | method a m =>
        cases g with
        | code b => simp [Alike, Value.sort?, Value.receiver?]
        | method b n => simp [Alike, Value.sort?, Value.receiver?, and_comm, eq_comm]
    | _ => cases f <;> simp [Alike, Value.sort?, Value.receiver?]
  | _ => cases hu

theorem Value.receiver?_of_isView (hv : v.isView = true) (hsort : v.sort? = none) :
    ∃ c name, v.receiver? = some (c, name) ∧ v.handles = [c] := by
  cases v with
  | callable f => cases f with
    | code c => cases hsort
    | method c name => exact ⟨c, some name, rfl, rfl⟩
  | object o => exact ⟨o.reference, none, rfl, rfl⟩
  | array | hash => cases hsort
  | _ => cases hv

theorem Value.handles_of_sort? (hv : v.sort? = some slot) : ∃ c, v.handles = [c] := by
  cases v with
  | array a => exact ⟨a.cell, rfl⟩
  | hash a => exact ⟨a.cell, rfl⟩
  | callable f => exact ⟨f.anchor, rfl⟩
  | _ => cases hv

theorem Value.sort?_of_receiver? {p : Handle × Option String} (hv : v.receiver? = some p) :
    v.sort? = none ∧ v.handles = [p.1] := by
  cases v with
  | callable f =>
    cases f with
    | code c => cases hv
    | method c name => cases hv; exact ⟨rfl, rfl⟩
  | object o => cases hv; exact ⟨rfl, rfl⟩
  | _ => cases hv

theorem Alike.symm (hu : u.isView = true) (hv : v.isView = true) (huv : Alike w u v) : Alike w v u := by
  rw [alike_iff hu] at huv
  rw [alike_iff hv]
  rcases huv with ⟨slot, a, b, ha, hb, h⟩ | ⟨a, b, name, ha, hb, h⟩
  · exact .inl ⟨slot, b, a, hb, ha, h.symm⟩
  · exact .inr ⟨b, a, name, hb, ha, h.symm⟩

theorem Alike.trans (hu : u.isView = true) (hv : v.isView = true) (hus : ∀ c ∈ u.handles, c.session = s)
    (hvs : ∀ c ∈ v.handles, c.session = s) (hts : ∀ c ∈ t.handles, c.session = s) (huv : Alike w u v)
    (hvt : Alike w v t) : Alike w u t := by
  rw [alike_iff hu] at huv ⊢
  rw [alike_iff hv] at hvt
  rcases huv with ⟨slot, a, b, ha, ⟨hsort, hb⟩, hab⟩ | ⟨a, b, name, ha, hb, hab⟩
  · rcases hvt with ⟨slot', b', c, ⟨hsort', hb'⟩, hc, hbc⟩ | ⟨b', c, name, hb', -, -⟩
    · obtain rfl := Option.some.inj (hsort.symm.trans hsort')
      obtain rfl := List.singleton_injective (hb.symm.trans hb')
      refine .inl ⟨slot, a, c, ha, hc, hab.trans hbc ?_ ?_⟩
      · rw [hus a (by simp [ha.2]), hvs b (by simp [hb])]
      · rw [hvs b (by simp [hb]), hts c (by simp [hc.2])]
    · exact nomatch (Value.sort?_of_receiver? hb').1.symm.trans hsort
  · rcases hvt with ⟨slot, b', c, ⟨hsort, -⟩, -, -⟩ | ⟨b', c, name', hb', hc, hbc⟩
    · exact nomatch (Value.sort?_of_receiver? hb).1.symm.trans hsort
    · cases hb.symm.trans hb'
      exact .inr ⟨a, c, name, ha, hc, hab.trans hbc⟩

theorem alike_of_handles (w : World) (hu : u.sort? = some slot) (hv : v.sort? = some slot)
    (hhandles : u.handles = v.handles) : Alike w u v := by
  obtain ⟨c, hc⟩ := Value.handles_of_sort? hu
  exact (alike_iff (Value.isView_of_sort? hu)).2
    (.inl ⟨slot, c, c, ⟨hu, hc⟩, ⟨hv, hhandles ▸ hc⟩, .inl rfl⟩)

theorem Alike.handles_eq (hu : w.Fits u) (hv : w.Fits v) (hslot : u.sort? = some slot)
    (hus : ∀ c ∈ u.handles, c.session = s) (hvs : ∀ c ∈ v.handles, c.session = s) (huv : Alike w u v) :
    v.sort? = some slot ∧ u.handles = v.handles := by
  rw [alike_iff (Value.isView_of_sort? hslot)] at huv
  rcases huv with ⟨slot', a, b, ⟨hsort, ha⟩, ⟨hsort', hb⟩, hab⟩ | ⟨a, b, name, ha, -, -⟩
  · obtain rfl := Option.some.inj (hslot.symm.trans hsort)
    have hsession : a.session = b.session := by rw [hus a (by simp [ha]), hvs b (by simp [hb])]
    refine ⟨hsort', ?_⟩
    rw [ha, hb]
    rcases hab.eq_or hsession with rfl | ⟨d, had, hbd⟩
    · rfl
    · have hcell : a.cell = b.cell := (had.eq_of_fits hu hsort (by simp [ha])).trans
        (hbd.eq_of_fits hv hsort' (by simp [hb])).symm
      rw [show a = b from by cases a; cases b; cases hsession; cases hcell; rfl]
  · exact nomatch (Value.sort?_of_receiver? ha).1.symm.trans hslot

theorem Viewing.isView (hv : Viewing origin w hs v) : v.isView = true := by
  induction hv with
  | receiver _ hview _ _ => exact hview
  | value _ _ hview _ => exact hview
  | opened _ _ _ hsort _ => exact Value.isView_of_sort? hsort
  | symbol _ _ hsort _ => exact Value.isView_of_sort? hsort
  | step _ _ _ ih => exact ih

/-- A receiver is the same as itself as far as the interpreter says so. -/
theorem alike_self_iff (hfresh : origin.Fresh) (hv : Viewing origin w hs v)
    (hvs : ∀ c ∈ v.handles, c.session = s) :
    Alike w v v ↔ v.sort?.isSome ∨ (w.session s).stage = .initialized := by
  cases hsort : v.sort? with
  | some slot => exact iff_of_true (alike_of_handles w hsort hsort rfl) (.inl rfl)
  | none =>
    obtain ⟨hreach, hsub⟩ := hv.reached hfresh
    obtain ⟨c, name, hc, hhandles⟩ := Value.receiver?_of_isView hv.isView hsort
    have hmem : c ∈ v.handles := by simp [hhandles]
    rw [alike_iff hv.isView]
    constructor
    · rintro (⟨slot, a, b, ⟨hslot, -⟩, -, -⟩ | ⟨a, b, name, ha, -, d, hidentity, -⟩)
      · exact nomatch hsort.symm.trans hslot
      · cases hc.symm.trans ha
        exact .inr (hvs c hmem ▸ hidentity.1)
    · rintro (hsome | hstage)
      · cases hsome
      · obtain ⟨d, hd⟩ := hreach.identifies hfresh (hsub hmem) (hvs c hmem ▸ hstage)
        exact .inr ⟨c, c, name, hc, hc, d, hd, hd⟩

/-- The main statement. Equality of views of one session always has an answer. It is symmetric and
transitive; reflexive, but for receivers while the session does not run; and what is equal once stays so,
again but for receivers. -/
theorem equality_laws (hfresh : origin.Fresh) (hu : Viewing origin w hs u) (hv : Viewing origin w hs v)
    (hus : ∀ c ∈ u.handles, c.session = s) (hvs : ∀ c ∈ v.handles, c.session = s)
    (hts : ∀ c ∈ t.handles, c.session = s) :
    (∃ r, ((u.equal v).run w).1 = .ok r) ∧
      (w.Equates u u ↔ u.sort?.isSome ∨ (w.session s).stage = .initialized) ∧
      (w.Equates u v → w.Equates v u) ∧ (w.Equates u v → w.Equates v t → w.Equates u t) ∧
      (w.Equates u v → ∀ w' hs', Reached origin w' hs' → (u.sort?.isSome → w'.Equates u v) ∧
        (u.sort? = none → (w'.session s).stage ≠ .initialized → ¬ w'.Equates u v)) := by
  obtain ⟨hreach, -⟩ := hu.reached hfresh
  obtain ⟨r, w₁, hrun, -, -⟩ := decides_equal (decides_sameReferent hfresh hreach) u v
  have hequates {x y : Value} : w.Equates x y ↔ Alike w x y := hreach.equates_iff hfresh
  refine ⟨⟨r, by rw [hrun]⟩, hequates.trans (alike_self_iff hfresh hu hus), fun huv => ?_,
    fun huv hvt => ?_, fun huv w' hs' hreach' => ?_⟩
  · exact hequates.2 ((hequates.1 huv).symm hu.isView hv.isView)
  · exact hequates.2 ((hequates.1 huv).trans hu.isView hv.isView hus hvs hts (hequates.1 hvt))
  · rw [hreach'.equates_iff hfresh]
    refine ⟨fun hsome => ?_, fun hnone hstage huv' => ?_⟩
    · obtain ⟨slot, hslot⟩ := Option.isSome_iff_exists.1 hsome
      obtain ⟨hslot', hhandles⟩ :=
        (hequates.1 huv).handles_eq (hu.fits hfresh) (hv.fits hfresh) hslot hus hvs
      exact alike_of_handles w' hslot hslot' hhandles
    · rw [alike_iff hu.isView] at huv'
      rcases huv' with ⟨slot, a, b, ⟨hslot, -⟩, -, -⟩ | ⟨a, b, name, ha, -, d, hidentity, -⟩
      · exact nomatch hnone.symm.trans hslot
      · have hmem : a ∈ u.handles := by simp [(Value.sort?_of_receiver? ha).2]
        exact hstage (hus a hmem ▸ hidentity.1)

/-- A session that has an array for the host, and the view of it. -/
def arrayWorld : World := ((cross ⟨0⟩ "new_array" .newArray).run (started {})).2

def arrayView : Value := .array ⟨⟨⟨0⟩, ⟨5⟩⟩⟩

theorem viewing_array : ∃ hs, Viewing (Console.single {}).world arrayWorld (arrayView.handles ++ hs)
    arrayView := by
  have hrun : ((cross ⟨0⟩ "new_array" .newArray).run (started {})).1.toOption = some ⟨⟨0⟩, ⟨5⟩⟩ := by
    decide +kernel
  exact ⟨_, .opened (reached_run (fresh_single {}) [{ command := .session ⟨0⟩ .start }]) .array
    (Prod.ext (eq_ok_of_toOption hrun) rfl) rfl rfl⟩

theorem equality_laws_array : (∀ c ∈ arrayView.handles, c.session = ⟨0⟩) ∧
    arrayWorld.Equates arrayView arrayView ∧ (arrayWorld.shutDown ⟨0⟩).Equates arrayView arrayView := by
  have hsession : ∀ c ∈ arrayView.handles, c.session = ⟨0⟩ := by decide
  obtain ⟨hs, hview⟩ := viewing_array
  obtain ⟨-, hself, -, -, hstable⟩ :=
    equality_laws (fresh_single {}).world hview hview hsession hsession hsession
  have hequal := hself.2 (.inl rfl)
  obtain ⟨hreach, -⟩ := hview.reached (fresh_single {}).world
  exact ⟨hsession, hequal, (hstable hequal _ _ (hreach.shutDown ⟨0⟩)).1 rfl⟩

/-- The view of the object that is made in `builtConsole`. -/
def objectView : Value := .object ⟨⟨⟨0⟩, ⟨13⟩⟩, "P"⟩

/-- An object is not even equal to itself after its session was shut down. -/
theorem not_equal_after_shutDown : ∃ (w w' : World) (hs : List Handle) (u : Value),
    Viewing (Console.single (Setup.preload {} setters)).world w hs u ∧
      Viewing (Console.single (Setup.preload {} setters)).world w' hs u ∧ w.Equates u u ∧
      w' = w.shutDown ⟨0⟩ ∧ ¬ w'.Equates u u := by
  have hview : Viewing (Console.single (Setup.preload {} setters)).world builtConsole.world
      builtConsole.handles objectView :=
    .receiver reached_built rfl rfl (by decide +kernel)
  have hbefore : ((objectView.equal objectView).run builtConsole.world).1.toOption = some true := by
    decide +kernel
  have hafter : ((objectView.equal objectView).run (builtConsole.world.shutDown ⟨0⟩)).1.toOption =
      some false := by
    decide +kernel
  refine ⟨_, _, _, _, hview, .step hview (.shutDown (s := ⟨0⟩) ⟨0⟩) (hview.reached (fresh_single _).world).2,
    eq_ok_of_toOption hbefore, rfl, fun hequal => ?_⟩
  rw [World.Equates, eq_ok_of_toOption hafter] at hequal
  cases hequal

end Embedding
