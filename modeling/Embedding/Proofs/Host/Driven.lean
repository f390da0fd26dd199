import Embedding.Proofs.Heap.Consistent
import Embedding.Proofs.Host.Arrivals
import Embedding.Proofs.Host.Seeing

/-!
# Driven worlds

A host that works through sessions marks bytes as text only where they encode one. The driven worlds are
those that it comes to in this way. While a session runs there, all its scalars are consistent and all its
text is text, so the host finds a value for every scalar that it asks for.
-/

namespace Embedding

open Heap

/-- The worlds that a host reaches from the origin without the mark of text on bytes that are none, each
with the handles that it owns there: what every invariant holds of that goes on through such operations. -/
def Driven (origin w : World) (hs : List Handle) : Prop :=
  ∀ I : World → List Handle → Prop, Primitives (Within Everywhere) I → I origin [] → I w hs

variable {origin w w' : World} {hs : List Handle} {s : SessionId} {h h' : Heap} {c : Handle} {x : Scalar}

theorem Driven.start : Driven origin origin [] := fun _ _ hstart => hstart

theorem primitives_reached : Primitives (Within Everywhere) (Reached origin) where
  toAffairs := books_reached
  claim s := .claim s
  construct _ hstage hreach := hreach.ends_construct hstage
  abandon s hreach := hreach.abandon s rfl
  retain := .retain

theorem Driven.reached (hd : Driven origin w hs) : Reached origin w hs := hd _ primitives_reached .start

/-! ## Sound scalars -/

theorem regime_sound (origin : Session) : Regime (fun _ request => request.isTextual = true)
    origin.engine.interpreter.setup fun h σ => h.Leaky σ ∧ h.AllScalars Scalar.Sound := by
  have hleaky : Regime (fun _ request => request.isTextual = true) origin.engine.interpreter.setup Leaky :=
    { (discipline_leaky origin).toRegime with
      cross := fun request _ => (discipline_leaky origin).cross request trivial }
  refine hleaky.and_preserved (fun request htextual h hh => ?_) stable_sound.takeError
    stable_sound.retain stable_sound.release
  exact stable_sound.answer_of (allBodies_true _) request (Request.brought_sound htextual) hh
    (Latitude.free_all.request _ request h)

theorem isTextual_of_within {shape : Shape} {request : Request Handle shape}
    (hmay : Within Everywhere s request) : request.isTextual = true :=
  hmay.elim And.right fun hlooks => by cases request <;> first | rfl | cases hlooks

theorem Driven.sound (hd : Driven origin w hs) (hfresh : origin.Fresh) :
    Balanced origin (fun _ h σ => h.Leaky σ ∧ h.AllScalars Scalar.Sound) w hs := by
  refine hd _ (primitives_of_regime (fun s => regime_sound (origin.session s)) ?_ ?_ ?_) hfresh.balanced
  · exact fun hmay => (Request.isTextual_map _ _).trans (isTextual_of_within hmay)
  · exact fun s _ hboot =>
      ⟨(discipline_leaky (origin.session s)).boot hboot, stable_sound.allScalars_boot hboot⟩
  · exact fun _ _ _ _ hgood => ⟨hgood.1.lose, hgood.2⟩

/-! ## Values of scalars -/

theorem Scalar.Sound.seen (hx : x.Sound) (hkind : x.kind = .scalar) :
    ∃ v, x.seen = .ok v ∧ v ≠ .nothing := by
  unfold Scalar.seen
  by_cases htruth : x.truth = true
  · exact ⟨_, if_pos htruth, Value.noConfusion⟩
  rw [if_neg htruth]
  by_cases hint : x.int.isSome = true
  · exact ⟨_, if_pos hint, Value.noConfusion⟩
  rw [if_neg hint]
  by_cases hnum : x.num.isSome = true
  · exact ⟨_, if_pos hnum, Value.noConfusion⟩
  rw [if_neg hnum]
  cases htext : x.text with
  | none =>
    -- what has none of these is a reference or undefined, and no scalar to the host
    exfalso
    unfold Scalar.kind at hkind
    by_cases href : x.flags.ref = true
    · rw [if_pos href] at hkind
      cases hkind
    · have hempty : x.flags = .empty := by
        rw [Scalar.flags] at href ⊢
        simp only [Bool.not_eq_true] at htruth hint hnum href
        rw [htruth, hint, hnum, href, htext]
        rfl
      rw [if_neg href, if_pos (show x.flags.isEmpty = true from decide_eq_true hempty)] at hkind
      cases hkind
  | some t =>
    by_cases hutf8 : t.utf8 = true
    · obtain ⟨u, hu⟩ := Scalar.encoded_of_isTextual hx.2 htext hutf8
      dsimp only
      rw [if_pos hutf8, hu, Utf8.decode_encode]
      exact ⟨.text u, rfl, Value.noConfusion⟩
    · exact ⟨.bytes t.bytes, if_neg hutf8, Value.noConfusion⟩

theorem Heap.scalar_of_kind {d : CellId} (hkind : h.kind d = .ok .scalar) :
    ∃ x, h.scalar d = .ok x ∧ x.kind = .scalar := by
  unfold Heap.kind at hkind
  cases hcell : h.cell d with
  | error e => rw [hcell] at hkind; cases hkind
  | ok y =>
    rw [hcell] at hkind
    have hkind : y.content.kind = .scalar := Except.ok.inj hkind
    cases hcontent : y.content with
    | scalar x =>
      rw [hcontent] at hkind
      exact ⟨x, scalar_eq_ok_iff.2 ⟨y, cell_eq_ok_iff.1 hcell, hcontent⟩, hkind⟩
    | _ => rw [hcontent] at hkind; cases hkind

/-- The host finds the value of a scalar, whatever it reads the values of errors with. -/
theorem Driven.run_scalarValueWith (hd : Driven origin w hs) (hfresh : origin.Fresh) (hc : c ∈ hs)
    {read : Handle → HostM Value} {operation : String}
    (hkind : (crossWith read c.session operation (.kind c)).run w = (.ok .scalar, w')) :
    ∃ v, (scalarValueWith (crossWith read) c).run w' = (.ok v, w') ∧ v ≠ .nothing := by
  obtain ⟨h, hr, -, hall⟩ := (hd.sound hfresh).runsOn (crossWith_initialized hkind)
  obtain ⟨-, hq, -⟩ := Arrived.good ⟨hd.reached, hr⟩ hfresh hc rfl
  obtain ⟨kind, h', hanswer, hsame, hw⟩ := hr.crossed hkind
  obtain ⟨hkind', rfl⟩ := Prod.mk.inj hanswer
  obtain rfl : kind = .scalar := hsame.symm
  obtain rfl : w' = w := hw.trans hr.put_self
  obtain ⟨x, hx, hscalar⟩ := Heap.scalar_of_kind hkind'
  obtain ⟨v, hv, hsome⟩ := (hall.scalar hx).seen hscalar
  refine ⟨v, ?_, hsome⟩
  rw [← hv]
  exact run_scalarValueWith_seen (hr.run_crossWith_asked hq rfl (congrArg (·, h) (flags_scalar hx)))
    (hr.run_crossWith_asked hq rfl (congrArg (·, h) (toInt_scalar hx)))
    (hr.run_crossWith_asked hq rfl (congrArg (·, h) (toNum_scalar hx)))
    fun t ht => hr.run_crossWith_asked hq rfl (congrArg (·, h) (toBytes_text hx ht))

end Embedding
