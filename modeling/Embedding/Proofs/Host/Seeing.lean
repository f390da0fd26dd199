import Embedding.Host.Container
import Embedding.Proofs.Heap.Carried
import Embedding.Proofs.Heap.Lists
import Embedding.Proofs.Heap.References
import Embedding.Proofs.Host.Steps

/-!
# Data is seen

What the host sees of a cell is the data that it carries, or a view of the container that it refers to.
A view stands for a count that the container has lent.
-/

namespace Embedding

open Heap
open HostM (holding)

/-- A value that a cell carries is seen as `u`, which stands for the lent counts `ds`. -/
inductive Seen (s : SessionId) (g : Heap) : (v u : Value) → (ds T : List CellId) → Prop
  | leaf {v x} : v.scalar? = some x → Seen s g v v [] []
  | list {items a n p cs T} : g.cell? a = some ⟨n, p, .array cs⟩ → 1 ≤ n →
    CarriesItems g items cs.toList T → Seen s g (.list items) (.array ⟨⟨s, a⟩⟩) [a] (a :: T)
  | mapping {entries a n p d cursor T} : g.cell? a = some ⟨n, p, .hash d cursor⟩ → 1 ≤ n →
    Dict.keys d = Dict.keys entries → CarriesItems g (Dict.values entries) (Dict.values d) T →
    Seen s g (.mapping entries) (.hash ⟨⟨s, a⟩⟩) [a] (a :: T)

inductive SeenItems (s : SessionId) (g : Heap) : (vs us : List Value) → (ds T : List CellId) → Prop
  | nil : SeenItems s g [] [] [] []
  | cons {v u vs us ds es T U} (c) : Seen s g v u ds T → SeenItems s g vs us es U →
    SeenItems s g (v :: vs) (u :: us) (ds ++ es) (c :: T ++ U)

variable {w : World} {s : SessionId} {setup : Setup} {g g' h h' : Heap} {v u : Value}
  {vs us : List Value} {a c : CellId} {x : Scalar} {cs ds es T : List CellId} {n i : Nat}

theorem Seen.turned (hv : Seen s g v u ds T) (ht : ∀ x, SameCell (g.cell? x) (g'.cell? x)) :
    Seen s g' v u ds T := by
  cases hv with
  | leaf hs => exact .leaf hs
  | list ha hn hitems => exact .list ((ht _).of_array ha) hn (hitems.turned ht)
  | mapping ha hn hkeys hitems =>
    obtain ⟨j, hj⟩ := (ht _).of_hash ha
    exact .mapping hj hn hkeys (hitems.turned ht)

theorem SeenItems.turned (hvs : SeenItems s g vs us ds T)
    (ht : ∀ x, SameCell (g.cell? x) (g'.cell? x)) : SeenItems s g' vs us ds T := by
  induction hvs with
  | nil => exact .nil
  | cons c hv _ ih => exact .cons c (hv.turned ht) ih

/-! ## Questions about scalars -/

/-- What the host sees of a scalar that is no reference, or why it sees nothing. -/
def Scalar.seen (x : Scalar) : Except HostError Value :=
  if x.truth then .ok (.bool (x.toInt ≠ 0))
  else if x.int.isSome then .ok (.int x.toInt)
  else if x.num.isSome then .ok (.float x.toNum)
  else
    match x.text with
    | some t =>
      if t.utf8 then
        match Utf8.decode t.bytes with
        | .ok u => .ok (.text u)
        | .error fault => .error (.conversion "string scalar" "str" fault.message)
      else .ok (.bytes t.bytes)
    | none => .ok .nothing

theorem Scalar.seen_of_plain? (hv : x.plain? = some v) : x.ref = none ∧ x.seen = .ok v := by
  unfold plain? at hv
  unfold seen
  by_cases href : x.ref.isSome
  · rw [if_pos href] at hv
    cases hv
  rw [if_neg href] at hv
  refine ⟨Option.not_isSome_iff_eq_none.mp href, ?_⟩
  by_cases htruth : x.truth = true
  · rw [if_pos htruth] at hv ⊢
    rw [Option.some.inj hv]
  rw [if_neg htruth] at hv ⊢
  by_cases hint : x.int.isSome
  · rw [if_pos hint] at hv ⊢
    rw [Option.some.inj hv]
  rw [if_neg hint] at hv ⊢
  by_cases hnum : x.num.isSome
  · rw [if_pos hnum] at hv ⊢
    rw [Option.some.inj hv]
  rw [if_neg hnum] at hv ⊢
  cases htext : x.text with
  | none =>
    rw [htext] at hv
    cases hv
    rfl
  | some t =>
    rw [htext] at hv
    dsimp only at hv ⊢
    by_cases hutf8 : t.utf8 = true
    · rw [if_pos hutf8] at hv ⊢
      obtain ⟨u, hu, rfl⟩ := Option.map_eq_some_iff.mp hv
      rw [eq_ok_of_toOption hu]
    · rw [if_neg hutf8] at hv ⊢
      rw [Option.some.inj hv]

theorem kind_scalar (hc : h.scalar c = .ok x) : h.kind c = .ok x.kind := by
  obtain ⟨y, hy, hcontent⟩ := scalar_eq_ok_iff.1 hc
  rw [Heap.kind, cell_ok hy]
  exact congrArg (fun content => Except.ok content.kind) hcontent

theorem kind_ref (href : x.ref = some a) : x.kind = .ref := by
  simp [Scalar.kind, Scalar.flags, href]

theorem className_ref {y : Cell} (hc : h.scalar c = .ok x) (href : x.ref = some a)
    (ha : h.cell? a = some y) : h.className c = .ok y.package := by
  unfold Heap.className
  rw [kind_scalar hc, target_ref hc href, kind_ref href]
  dsimp only [bind, Except.bind]
  rw [cell_ok ha]
  rfl

theorem flags_scalar (hc : h.scalar c = .ok x) : h.flags c = .ok x.flags := by
  rw [Heap.flags, hc]
  rfl

theorem toInt_scalar (hc : h.scalar c = .ok x) : h.toInt c = .ok x.toInt := by
  rw [Heap.toInt, hc]
  rfl

theorem toNum_scalar (hc : h.scalar c = .ok x) : h.toNum c = .ok x.toNum := by
  rw [Heap.toNum, hc]
  rfl

theorem toBytes_text {t : ByteText} (hc : h.scalar c = .ok x) (ht : x.text = some t) :
    h.toBytes c = .ok t.bytes := by
  obtain ⟨y, hy, hcontent⟩ := scalar_eq_ok_iff.1 hc
  unfold Heap.toBytes
  rw [cell_ok hy]
  dsimp only [bind, Except.bind]
  rw [hcontent]
  dsimp only
  rw [ht]
  rfl

/-! ## Steps of walks -/

theorem run_hashNext_entry {w w' : World} {c : HashCursor} {entry : String × Value}
    (hstep : c.step.run w = (.ok (some entry), w')) (hwalk : c.walk ≠ .ended) :
    c.next.run w = (.ok (some (.ok entry), { c with walk := .started }), w') := by
  rw [HashCursor.next, if_neg hwalk]
  exact (run_bind_ok (HostM.run_attempt_eq hstep)).trans rfl

theorem run_hashNext_end {w w' : World} {c : HashCursor}
    (hstep : c.step.run w = (.ok none, w')) (hwalk : c.walk ≠ .ended) :
    c.next.run w = (.ok (none, { c with walk := .ended }), w') := by
  rw [HashCursor.next, if_neg hwalk]
  exact (run_bind_ok (HostM.run_attempt_eq hstep)).trans rfl

theorem run_hashNext_fresh {w w' : World} {hash : HashView}
    (hstep : (HashCursor.step ⟨hash, .fresh⟩).run w = (HashCursor.step ⟨hash, .started⟩).run w') :
    (HashCursor.next ⟨hash, .fresh⟩).run w = (HashCursor.next ⟨hash, .started⟩).run w' := by
  have hattempt : (HashCursor.step ⟨hash, .fresh⟩).attempt.run w =
      (HashCursor.step ⟨hash, .started⟩).attempt.run w' := by
    rw [HostM.run_attempt, HostM.run_attempt, hstep]
  have hfresh : Walk.fresh ≠ .ended := nofun
  have hstarted : Walk.started ≠ .ended := nofun
  rw [HashCursor.next, HashCursor.next, if_neg hfresh, if_neg hstarted]
  rw [run_bind, run_bind, hattempt]

theorem run_toEntries_fresh {w w' : World} {hash : HashView} {fuel : Nat}
    (hstep : (HashCursor.step ⟨hash, .fresh⟩).run w = (HashCursor.step ⟨hash, .started⟩).run w') :
    (HashCursor.toEntries (fuel + 1) ⟨hash, .fresh⟩).run w =
      (HashCursor.toEntries (fuel + 1) ⟨hash, .started⟩).run w' := by
  rw [HashCursor.toEntries, HashCursor.toEntries, run_bind, run_bind, run_hashNext_fresh hstep]

theorem run_toKeys_fresh {w w' : World} {hash : HashView} {fuel : Nat}
    (hstep : (HashCursor.step ⟨hash, .fresh⟩).run w = (HashCursor.step ⟨hash, .started⟩).run w') :
    (HashCursor.toKeys (fuel + 1) ⟨hash, .fresh⟩).run w =
      (HashCursor.toKeys (fuel + 1) ⟨hash, .started⟩).run w' := by
  rw [HashCursor.toKeys, HashCursor.toKeys, run_bind, run_bind, run_hashNext_fresh hstep]

/-- What a reference to the cell is seen as if the cell has the kind and is no object. -/
def viewOf (cell : Handle) : Kind → Option Value
  | .array => some (.array ⟨cell⟩)
  | .hash => some (.hash ⟨cell⟩)
  | .code => some (.callable (.code cell))
  | _ => none

/-! ## Bounds on walks -/

theorem World.RunsOn.run_itemBound_array {items : Array CellId} (hr : w.RunsOn s setup h)
    (hitems : h.items a = .ok items) : (HostM.itemBound ⟨s, a⟩).run w = (.ok (items.size + 1), w) := by
  obtain ⟨y, hy, hcontent⟩ := items_eq_ok_iff.mp hitems
  rw [HostM.itemBound, run_get_bind, hr.engine]
  dsimp only [Option.bind]
  rw [hy]
  simp only [Option.map_some, hcontent]
  rfl

theorem World.RunsOn.run_itemBound_hash {d : Dict CellId} (hr : w.RunsOn s setup h)
    (hhash : h.hash a = .ok (d, i)) : (HostM.itemBound ⟨s, a⟩).run w = (.ok (d.length + 1), w) := by
  obtain ⟨y, hy, hcontent⟩ := hash_eq_ok_iff.mp hhash
  rw [HostM.itemBound, run_get_bind, hr.engine]
  dsimp only [Option.bind]
  rw [hy]
  simp only [Option.map_some, hcontent]
  rfl

/-! ## The value of a cell -/

/-- The flags of a scalar decide which question its value is found by. -/
theorem run_scalarValueWith_seen {act : SessionId → String → {shape : Shape} → Request Handle shape →
      HostM (Answer Handle shape)} {c : Handle}
    (hflags : (act c.session "to_host" (.flags c)).run w = (.ok x.flags, w))
    (hint : (act c.session "to_host" (.toInt c)).run w = (.ok x.toInt, w))
    (hnum : (act c.session "to_host" (.toNum c)).run w = (.ok x.toNum, w))
    (hbytes : ∀ t, x.text = some t → (act c.session "to_host" (.toBytes c)).run w = (.ok t.bytes, w)) :
    (scalarValueWith act c).run w = (x.seen, w) := by
  rw [scalarValueWith, run_bind_ok hflags]
  unfold Scalar.seen
  by_cases htruth : x.truth = true
  · rw [if_pos htruth, if_pos (show x.flags.truth = true from htruth)]
    exact run_bind_ok hint
  rw [if_neg htruth, if_neg (show ¬ x.flags.truth = true from htruth)]
  by_cases hisint : x.int.isSome = true
  · rw [if_pos hisint, if_pos (show x.flags.int = true from hisint)]
    exact run_bind_ok hint
  rw [if_neg hisint, if_neg (show ¬ x.flags.int = true from hisint)]
  by_cases hisnum : x.num.isSome = true
  · rw [if_pos hisnum, if_pos (show x.flags.num = true from hisnum)]
    exact run_bind_ok hnum
  rw [if_neg hisnum, if_neg (show ¬ x.flags.num = true from hisnum)]
  cases htext : x.text with
  | none =>
    have hflag : ¬ x.flags.text = true := by simp [Scalar.flags, htext]
    rw [if_neg hflag]
    rfl
  | some t =>
    have hflag : x.flags.text = true := by simp [Scalar.flags, htext]
    have hutf8 : x.flags.utf8 = t.utf8 := by simp [Scalar.flags, htext]
    rw [if_pos hflag, run_bind_ok (hbytes t htext), hutf8]
    dsimp only
    by_cases ht : t.utf8 = true
    · rw [if_pos ht, if_pos ht]
      cases Utf8.decode t.bytes <;> rfl
    · rw [if_neg ht, if_neg ht]
      rfl

section
variable {start : Heap} (hk : w.KeptOn s setup start)
include hk

theorem run_ask_cell (hq : h.Quiet) (operation : String) {shape : Shape}
    (request : Request Handle shape) {answer : Answer CellId shape} (hstakes : answer.stakes = [])
    (hanswer : (Heap.answer setup (request.map Handle.cell)).run h = (.ok answer, h)) :
    (cross s operation request).run (w.put s h n) =
      (.ok (answer.map fun c => ⟨s, c⟩), w.put s h n) := by
  rw [hk.run_cross operation request hanswer hq, hstakes]
  rfl

/-- The value of a cell that holds a scalar, which is no reference. -/
theorem run_value_scalar (hq : h.Quiet) (hc : h.scalar c = .ok x) (href : x.ref = none) :
    (Handle.value ⟨s, c⟩).run (w.put s h n) = (x.seen, w.put s h n) := by
  have hasked {shape : Shape} {request : Request Handle shape} {answer : Answer CellId shape}
      (hstakes : answer.stakes = [])
      (hanswer : (Heap.answer setup (request.map Handle.cell)).run h = (.ok answer, h)) :=
    run_ask_cell hk (n := n) hq "to_host" _ hstakes hanswer
  have hkind : (cross s "to_host" (.kind ⟨s, c⟩)).run (w.put s h n) = (.ok x.kind, w.put s h n) :=
    hasked rfl (congrArg (·, h) (kind_scalar hc))
  rw [Handle.value, valueWith, run_bind_ok hkind]
  have hnoref : ¬ x.flags.ref = true := by simp [Scalar.flags, href]
  by_cases hempty : x.flags.isEmpty = true
  · -- a scalar without representations
    have hundef : x.kind = .undef := by rw [Scalar.kind, if_neg hnoref, if_pos hempty]
    have hflag : x.flags = .empty := of_decide_eq_true hempty
    have htruth : x.truth = false := congrArg Flags.truth hflag
    have hnoint : x.int.isSome = false := congrArg Flags.int hflag
    have hnonum : x.num.isSome = false := congrArg Flags.num hflag
    have hnotext : x.text = none := by simpa [Scalar.flags, Flags.empty] using congrArg Flags.text hflag
    unfold Scalar.seen
    rw [htruth, hnoint, hnonum, hnotext, hundef]
    rfl
  have hscalar : x.kind = .scalar := by rw [Scalar.kind, if_neg hnoref, if_neg hempty]
  rw [hscalar]
  have hflags : (cross s "to_host" (.flags ⟨s, c⟩)).run (w.put s h n) = (.ok x.flags, w.put s h n) :=
    hasked rfl (congrArg (·, h) (flags_scalar hc))
  have hint : (cross s "to_host" (.toInt ⟨s, c⟩)).run (w.put s h n) = (.ok x.toInt, w.put s h n) :=
    hasked rfl (congrArg (·, h) (toInt_scalar hc))
  have hnum : (cross s "to_host" (.toNum ⟨s, c⟩)).run (w.put s h n) = (.ok x.toNum, w.put s h n) :=
    hasked rfl (congrArg (·, h) (toNum_scalar hc))
  have hbytes (t : ByteText) (ht : x.text = some t) :
      (cross s "to_host" (.toBytes ⟨s, c⟩)).run (w.put s h n) = (.ok t.bytes, w.put s h n) :=
    hasked rfl (congrArg (·, h) (toBytes_text hc ht))
  exact run_scalarValueWith_seen hflags hint hnum hbytes

theorem run_value_plain (hq : h.Quiet) (hv : h.reads? c = some v) :
    (Handle.value ⟨s, c⟩).run (w.put s h n) = (.ok v, w.put s h n) := by
  obtain ⟨x, hc, hplain⟩ := reads?_eq_some_iff.mp hv
  obtain ⟨href, hseen⟩ := Scalar.seen_of_plain? hplain
  rw [run_value_scalar hk hq hc href, hseen]

theorem run_value_leaf (hq : h.Quiet) (hv : v.scalar? = some x) (hc : h.scalar c = .ok x) :
    (Handle.value ⟨s, c⟩).run (w.put s h n) = (.ok v, w.put s h n) :=
  run_value_plain hk hq ((reads?_of_scalar hc).trans (Value.plain?_scalar hv))

/-- A reference to a cell that is no object is seen as a view of the cell, with a count of its own, if
there is a view of it. -/
theorem run_value_ref {h' : Heap} {y : Cell} (hq : h.Quiet) (hc : h.scalar c = .ok x)
    (href : x.ref = some a) (ha : h.cell? a = some y) (hpackage : y.package = none)
    (hretain : (retain a).run h = (.ok (), h')) :
    (Handle.value ⟨s, c⟩).run (w.put s h n) = match viewOf ⟨s, a⟩ y.content.kind with
      | some u => (.ok u, w.put s h' (n + 1))
      | none => (.error (.conversion s!"{y.content.kind.refName} reference" "host value"
          "only array, hash, code and blessed references cross the bridge"),
          (w.put s h' (n + 1)).releaseAll [⟨s, a⟩]) := by
  have hg := retain_grows h a
  rw [hretain] at hg
  obtain ⟨m, ha'⟩ := hg.cells a y ha
  have hclass : h.className c = .ok none := hpackage ▸ className_ref hc href ha
  have hderef : (deref c).run h = (.ok a, h') := by
    rw [deref, run_bind_ok (by rw [run_query, target_ref hc href]), run_bind_ok hretain]
    rfl
  have hkind : h'.kind a = .ok y.content.kind := by
    rw [Heap.kind, cell_ok ha']
    rfl
  have hkind₁ := run_ask_cell hk (n := n) hq "to_host" (.kind ⟨s, c⟩) rfl (congrArg (·, h) (kind_scalar hc))
  have hclass₁ := run_ask_cell hk (n := n) hq "to_host" (.className ⟨s, c⟩) rfl (congrArg (·, h) hclass)
  have hderef₁ := hk.run_cross (n := n) "to_host" (.deref ⟨s, c⟩) hderef (hq.grows hg)
  have hkind₂ := run_ask_cell hk (n := n + 1) (hq.grows hg) "kind" (.kind ⟨s, a⟩) rfl
    (congrArg (·, h') hkind)
  rw [kind_ref href] at hkind₁
  rw [Handle.value, valueWith, run_bind_ok hkind₁]
  change (referenceValueWith cross ⟨s, c⟩).run _ = _
  rw [referenceValueWith, run_bind_ok hclass₁]
  change (cross s "to_host" (.deref ⟨s, c⟩) >>= fun target => _).run _ = _
  rw [run_bind_ok hderef₁]
  refine (run_orRelease_eq (run_bind_ok hkind₂)).trans ?_
  cases y.content.kind <;> rfl

theorem run_value_target {h' : Heap} {y : Cell} (hq : h.Quiet) (hc : h.scalar c = .ok (.ofRef a))
    (ha : h.cell? a = some y) (hpackage : y.package = none) (hretain : (retain a).run h = (.ok (), h'))
    (hu : viewOf ⟨s, a⟩ y.content.kind = some u) :
    (Handle.value ⟨s, c⟩).run (w.put s h n) = (.ok u, w.put s h' (n + 1)) := by
  rw [run_value_ref hk hq hc rfl ha hpackage hretain, hu]

theorem run_value_object {σ : List CellId} {package : String} {y : Cell} (hq : h.Quiet) (hs : h.Sound σ)
    (hc : h.scalar c = .ok x) (href : x.ref = some a) (ha : h.cell? a = some y)
    (hpackage : y.package = some package) : ∃ r h',
      (Handle.value ⟨s, c⟩).run (w.put s h n) = (.ok (.object ⟨⟨s, r⟩, package⟩), w.put s h' (n + 1)) ∧
      h.Firm Unchanged h' ∧ h.AddsScalars h' ∧ h'.Sound (r :: σ) ∧ h'.scalar r = .ok (.ofRef a) := by
  have hclassName : h.className c = .ok (some package) := hpackage ▸ className_ref hc href ha
  obtain ⟨h₁, hderef, hg₁, hadds₁, hs₁⟩ := run_deref hs (target_ref hc href)
  obtain ⟨r, h₂, hnew, hg₂, hadds₂, hs₂, hr⟩ := run_newRef hs₁ (hs₁.isLive (.head _))
  obtain ⟨h₃, hrelease, hshrinks, hs₃⟩ := (hs₂.perm (.swap a r σ)).run_release
  have hkind := run_ask_cell hk (n := n) hq "to_host" (.kind ⟨s, c⟩) rfl (congrArg (·, h) (kind_scalar hc))
  have hclass := run_ask_cell hk (n := n) hq "to_host" (.className ⟨s, c⟩) rfl (congrArg (·, h) hclassName)
  have hderef' := hk.run_cross (n := n) "to_host" (.deref ⟨s, c⟩) hderef (hq.grows hg₁)
  have hnew' := hk.run_cross (n := n + 1) "to_host" (.newRef ⟨s, a⟩) hnew ((hq.grows hg₁).grows hg₂)
  refine ⟨r, h₃, ?_, (hg₁.trans hg₂).firm.unchanged hshrinks.firm,
    (hadds₁.trans hadds₂).trans hshrinks.addsScalars, hs₃,
    hshrinks.scalar_ok hr (hs₃.isLive (.head _))⟩
  rw [kind_ref href] at hkind
  rw [Handle.value, valueWith, run_bind_ok hkind]
  change (referenceValueWith cross ⟨s, c⟩).run _ = _
  rw [referenceValueWith, run_bind_ok hclass]
  change (cross s "to_host" (.deref ⟨s, c⟩) >>= fun target => _).run _ = _
  rw [run_bind_ok hderef']
  exact hk.run_holding ((run_bind_ok hnew').trans rfl) hrelease

theorem run_value_view {content : Content} {m : Nat} (hq : g.Quiet) (hl : Lent g h es)
    (ha : g.cell? a = some ⟨m, none, content⟩) (hc : h.scalar c = .ok (.ofRef a))
    (hview : viewOf ⟨s, a⟩ content.kind = some u) :
    ∃ h', (Handle.value ⟨s, c⟩).run (w.put s h n) = (.ok u, w.put s h' (n + 1)) ∧
      Lent g h' (a :: es) := by
  obtain ⟨h', hretain, hl'⟩ := hl.run_retain ha
  exact ⟨h', run_value_target hk (hl.quiet hq) hc (hl.cell ha) rfl hretain hview, hl'⟩

/-- A cell is seen as the value that it carries, whatever counts are lent. -/
theorem run_value (hq : g.Quiet) (hl : Lent g h es) (hc : g.HasContent c (.scalar x))
    (hv : Carries g v x T) : ∃ u ds h',
      (Handle.value ⟨s, c⟩).run (w.put s h n) = (.ok u, w.put s h' (n + ds.length)) ∧
        Seen s g v u ds T ∧ Lent g h' (ds ++ es) := by
  obtain ⟨_, _, hc, -⟩ := hc
  have hscalar : h.scalar c = .ok x := scalar_eq_ok_iff.2 ⟨_, hl.cell hc, rfl⟩
  cases hv with
  | leaf hs => exact ⟨v, [], h, run_value_leaf hk (hl.quiet hq) hs hscalar, .leaf hs, hl⟩
  | list ha hpos hitems =>
    obtain ⟨h', hrun, hl'⟩ := run_value_view hk (n := n) hq hl ha hscalar rfl
    exact ⟨_, [_], h', hrun, .list ha hpos hitems, hl'⟩
  | mapping ha hpos hkeys hitems =>
    obtain ⟨h', hrun, hl'⟩ := run_value_view hk (n := n) hq hl ha hscalar rfl
    exact ⟨_, [_], h', hrun, .mapping ha hpos hkeys hitems, hl'⟩

theorem run_found (hq : g.Quiet) (hl : Lent g h (c :: es))
    (hc : g.HasContent c (.scalar x)) (hv : Carries g v x T) : ∃ u ds h',
      (holding [⟨s, c⟩] (Handle.value ⟨s, c⟩)).run (w.put s h (n + 1)) =
          (.ok u, w.put s h' (n + ds.length)) ∧
        Seen s g v u ds T ∧ Lent g h' (ds ++ es) := by
  obtain ⟨u, ds, h₁, hrun, hseen, hl₁⟩ := run_value hk (n := n + 1) hq hl hc hv
  obtain ⟨_, _, hc, hpos⟩ := hc
  -- what the view took comes in front of the count that was found with the cell
  have hp : (ds ++ c :: es).Perm (c :: (ds ++ es)) := List.perm_middle
  obtain ⟨h₂, hrelease, hl₂⟩ := (hl₁.perm hp).run_release hc hpos
  refine ⟨u, ds, h₂, hk.run_holding ?_ hrelease, hseen, hl₂⟩
  rw [hrun, Nat.add_right_comm]

/-! ## Walks over arrays -/

section
variable {items : Array CellId} {m : Nat} {p : Option String}
  (ha : g.cell? a = some ⟨m, p, .array items⟩)
include ha

theorem run_arrayLength (hq : g.Quiet) (hl : Lent g h es) :
    (ArrayView.length ⟨⟨s, a⟩⟩).run (w.put s h n) = (.ok items.size, w.put s h n) :=
  run_ask_cell hk (hl.quiet hq) "array length" (.arrayLength ⟨s, a⟩) rfl
    (congrArg (·, h) (arrayLength_ok (items_eq_ok_iff.2 ⟨_, hl.cell ha, rfl⟩)))

theorem run_arrayGet (hq : g.Quiet) (hl : Lent g h es) (hi : items[i]? = some c)
    (hc : g.HasContent c (.scalar x)) (hv : Carries g v x T) : ∃ u ds h',
      (ArrayView.get ⟨⟨s, a⟩⟩ i).run (w.put s h n) = (.ok u, w.put s h' (n + ds.length)) ∧
        Seen s g v u ds T ∧ Lent g h' (ds ++ es) := by
  obtain ⟨_, _, hcell, -⟩ := id hc
  obtain ⟨h₁, hretain, hl₁⟩ := hl.run_retain hcell
  have hfetch : (arrayFetch a i).run h = (.ok (some c), h₁) := by
    have hitems : h.items a = .ok items := items_eq_ok_iff.2 ⟨_, hl.cell ha, rfl⟩
    rw [arrayFetch, run_bind_ok (by rw [run_query, hitems]), hi]
    exact (run_bind_ok hretain).trans rfl
  have hcross := hk.run_cross (n := n) "array get" (.arrayFetch ⟨s, a⟩ i) hfetch
    (hl₁.quiet hq)
  obtain ⟨u, ds, h₂, hfound, hseen, hl₂⟩ := run_found hk (n := n) hq hl₁ hc hv
  refine ⟨u, ds, h₂, ?_, hseen, hl₂⟩
  rw [ArrayView.get, run_bind_ok hcross]
  exact run_map_ok Value.ofOption (run_map_ok some hfound)

theorem run_arrayNext (hq : g.Quiet) (hl : Lent g h es) (hi : items[i]? = some c)
    (hc : g.HasContent c (.scalar x)) (hv : Carries g v x T) : ∃ u ds h',
      (ArrayCursor.next ⟨⟨⟨s, a⟩⟩, some i⟩).run (w.put s h n) =
          (.ok (some (.ok u), ⟨⟨⟨s, a⟩⟩, some (i + 1)⟩), w.put s h' (n + ds.length)) ∧
        Seen s g v u ds T ∧ Lent g h' (ds ++ es) := by
  obtain ⟨u, ds, h', hget, hseen, hl'⟩ := run_arrayGet hk ha (n := n) hq hl hi hc hv
  refine ⟨u, ds, h', ?_, hseen, hl'⟩
  have hlt : i < items.size := (Array.getElem?_eq_some_iff.1 hi).1
  have hlength := run_arrayLength hk ha (n := n) hq hl
  rw [ArrayCursor.next, run_bind_ok (HostM.run_attempt_eq hlength)]
  dsimp only
  rw [if_pos hlt, run_bind_ok (HostM.run_attempt_eq hget)]
  rfl

theorem run_arrayNext_end (hq : g.Quiet) (hl : Lent g h es) :
    (ArrayCursor.next ⟨⟨⟨s, a⟩⟩, some items.size⟩).run (w.put s h n) =
      (.ok (none, ⟨⟨⟨s, a⟩⟩, some items.size⟩), w.put s h n) := by
  have hlength := run_arrayLength hk ha (n := n) hq hl
  rw [ArrayCursor.next, run_bind_ok (HostM.run_attempt_eq hlength)]
  dsimp only
  rw [if_neg (Nat.lt_irrefl _)]
  rfl

/-- A walk from an item on sees the values of the items from there on. -/
theorem run_arrayWalk (hq : g.Quiet) : ∀ {vs cs} pre {T fuel h es n}, items.toList = pre ++ cs →
    CarriesItems g vs cs T → vs.length < fuel → Lent g h es → ∃ us ds h',
      (ArrayCursor.toList fuel ⟨⟨⟨s, a⟩⟩, some pre.length⟩).run (w.put s h n) =
          (.ok us, w.put s h' (n + ds.length)) ∧
        SeenItems s g vs us ds T ∧ Lent g h' (ds ++ es)
  | [], _, pre, _, fuel + 1, h, es, n, hitems, .nil, _, hl => by
    refine ⟨[], [], h, ?_, .nil, hl⟩
    have hsize : pre.length = items.size := by
      rw [List.append_nil] at hitems
      rw [← hitems, Array.length_toList]
    rw [hsize, ArrayCursor.toList, run_bind_ok (run_arrayNext_end hk ha hq hl)]
    rfl
  | v :: vs, c :: cs, pre, _, fuel + 1, h, es, n, hitems, .cons hc hv hvs, hfuel, hl => by
    have hi : items[pre.length]? = some c := by
      rw [← Array.getElem?_toList, hitems]
      simp
    obtain ⟨u, ds, h₁, hnext, hseen, hl₁⟩ := run_arrayNext hk ha (n := n) hq hl hi hc hv
    have hitems' : items.toList = (pre ++ [c]) ++ cs := by rw [hitems, List.append_cons]
    obtain ⟨us, ds', h₂, hrest, hseen', hl₂⟩ := run_arrayWalk hq _ (n := n + ds.length) hitems'
      hvs (Nat.lt_of_succ_lt_succ hfuel) hl₁
    rw [List.length_append, List.length_singleton] at hrest
    refine ⟨u :: us, ds ++ ds', h₂, ?_, .cons c hseen hseen', hl₂.perm ?_⟩
    · rw [ArrayCursor.toList, run_bind_ok hnext]
      dsimp only
      rw [run_bind_ok (run_orRelease_ok hrest), List.length_append, Nat.add_assoc]
      rfl
    · rw [← List.append_assoc]
      exact List.perm_append_comm.append_right es

theorem run_arrayToList (hq : g.Quiet) (hl : Lent g h es) (ha₁ : 1 ≤ m)
    (hvs : CarriesItems g vs items.toList T) : ∃ us ds h',
      (ArrayView.toList ⟨⟨s, a⟩⟩).run (w.put s h n) = (.ok us, w.put s h' (n + ds.length)) ∧
        SeenItems s g vs us ds T ∧ Lent g h' (ds ++ es) := by
  obtain ⟨h₁, hretain, hl₁⟩ := hl.run_retain ha
  have hfuel : vs.length < items.size + 1 := by
    rw [← hvs.length, Array.length_toList]
    exact Nat.lt_succ_self _
  obtain ⟨us, ds, h₂, hwalk, hseen, hl₂⟩ := run_arrayWalk hk ha hq [] (n := n + 1) rfl hvs hfuel hl₁
  have hp : (ds ++ a :: es).Perm (a :: (ds ++ es)) := List.perm_middle
  obtain ⟨h₃, hrelease, hl₃⟩ := (hl₂.perm hp).run_release ha ha₁
  refine ⟨us, ds, h₃, ?_, hseen, hl₃⟩
  have hclone : (ArrayView.cursor ⟨⟨s, a⟩⟩).run (w.put s h n) =
      (.ok ⟨⟨⟨s, a⟩⟩, some 0⟩, w.put s h₁ (n + 1)) := by
    rw [← hk.clone hretain]
    rfl
  have hbound := (hk.put h n).run_itemBound_array (items_eq_ok_iff.mpr ⟨_, hl.cell ha, rfl⟩)
  rw [ArrayView.toList, run_bind_ok hbound, run_bind_ok hclone]
  refine hk.run_holding ?_ hrelease
  rw [Nat.add_right_comm]
  exact hwalk

end

/-! ## Walks over hashes -/

section
variable {d : Dict CellId} {m : Nat} {p : Option String}

theorem run_hashStep (hq : g.Quiet) (hl : Lent g h es) {key : String}
    (ha : g.cell? a = some ⟨m, p, .hash d i⟩) (hi : d[i]? = some (key, c))
    (hc : g.HasContent c (.scalar x)) (hv : Carries g v x T) : ∃ u ds h',
      (HashCursor.step ⟨⟨⟨s, a⟩⟩, .started⟩).run (w.put s h n) =
          (.ok (some (key, u)), w.put s h' (n + ds.length)) ∧
        Seen s (g.setCell a (some ⟨m, p, .hash d (i + 1)⟩)) v u ds T ∧
        Lent (g.setCell a (some ⟨m, p, .hash d (i + 1)⟩)) h' (ds ++ es) := by
  have hturned := turned_setCell ha (i + 1)
  obtain ⟨h₁, hset, hl₁⟩ := hl.setContent ha (.hash d (i + 1))
  have hc' := hc.turned (hturned.same c)
  obtain ⟨_, _, hcell, -⟩ := id hc'
  obtain ⟨h₂, hretain, hl₂⟩ := hl₁.run_retain hcell
  have hnext : (hashNext a).run h = (.ok (some (key, c)), h₂) := by
    have hhash : h.hash a = .ok (d, i) := hash_eq_ok_iff.2 ⟨_, hl.cell ha, rfl⟩
    rw [hashNext, run_bind_ok (by rw [run_query, hhash])]
    dsimp only
    rw [hi]
    exact (run_bind_ok hset).trans ((run_bind_ok hretain).trans rfl)
  have hcross := hk.run_cross (n := n) "hash iterate" (.hashNext ⟨s, a⟩) hnext
    (hl₂.quiet (hturned.quiet hq))
  obtain ⟨u, ds, h₃, hfound, hseen, hl₃⟩ := run_found hk (n := n) (hturned.quiet hq) hl₂ hc'
    (hv.turned hturned.same)
  refine ⟨u, ds, h₃, ?_, hseen, hl₃⟩
  rw [HashCursor.step]
  refine (run_bind_ok hcross).trans ?_
  exact (run_bind_ok hfound).trans rfl

theorem run_hashStep_end (hq : g.Quiet) (hl : Lent g h es) (ha : g.cell? a = some ⟨m, p, .hash d i⟩)
    (hi : d[i]? = none) :
    (HashCursor.step ⟨⟨⟨s, a⟩⟩, .started⟩).run (w.put s h n) = (.ok none, w.put s h n) := by
  have hnext : (hashNext a).run h = (.ok none, h) := by
    have hhash : h.hash a = .ok (d, i) := hash_eq_ok_iff.2 ⟨_, hl.cell ha, rfl⟩
    rw [hashNext, run_bind_ok (by rw [run_query, hhash])]
    dsimp only
    rw [hi]
    rfl
  have hcross := run_ask_cell hk (n := n) (hl.quiet hq) "hash iterate" (.hashNext ⟨s, a⟩)
    rfl hnext
  rw [HashCursor.step]
  exact (run_bind_ok hcross).trans rfl

theorem run_hashStep_fresh (hq : g.Quiet) (hl : Lent g h es)
    (ha : g.cell? a = some ⟨m, p, .hash d i⟩) :
    ∃ h', Lent (g.setCell a (some ⟨m, p, .hash d 0⟩)) h' es ∧
      (HashCursor.step ⟨⟨⟨s, a⟩⟩, .fresh⟩).run (w.put s h n) =
        (HashCursor.step ⟨⟨⟨s, a⟩⟩, .started⟩).run (w.put s h' n) := by
  obtain ⟨h', hset, hl'⟩ := hl.setContent ha (.hash d 0)
  have hrewind : (hashRewind a).run h = (.ok (), h') := by
    have hhash : h.hash a = .ok (d, i) := hash_eq_ok_iff.2 ⟨_, hl.cell ha, rfl⟩
    rw [hashRewind, run_bind_ok (by rw [run_query, hhash])]
    exact hset
  have hcross := hk.run_cross (n := n) "hash iterate" (.hashRewind ⟨s, a⟩) hrewind
    (hl'.quiet ((turned_setCell ha 0).quiet hq))
  refine ⟨h', hl', ?_⟩
  rw [HashCursor.step, HashCursor.step]
  exact run_bind_ok hcross

/-- A walk from an entry on sees the values of the entries from there on. -/
theorem run_hashWalk : ∀ {rest : List (String × Value)} {d pre T g fuel h es n}, g.Quiet →
    g.cell? a = some ⟨m, p, .hash (pre ++ d) pre.length⟩ → Dict.keys d = Dict.keys rest →
    CarriesItems g (Dict.values rest) (Dict.values d) T → rest.length < fuel → Lent g h es →
    ∃ g' seen ds h', (HashCursor.toEntries fuel ⟨⟨⟨s, a⟩⟩, .started⟩).run (w.put s h n) =
        (.ok seen, w.put s h' (n + ds.length)) ∧ Turned [a] g g' ∧
      Dict.keys seen = Dict.keys rest ∧
      SeenItems s g' (Dict.values rest) (Dict.values seen) ds T ∧ Lent g' h' (ds ++ es)
  | [], [], pre, _, g, fuel + 1, h, es, n, hq, ha, _, .nil, _, hl => by
    have hnext := run_hashNext_end (run_hashStep_end hk (n := n) hq hl ha (by simp)) nofun
    exact ⟨g, [], [], h, (run_bind_ok hnext).trans rfl, .refl _ g, rfl, .nil, hl⟩
  | (key, v) :: rest, (key', c) :: d, pre, _, g, fuel + 1, h, es, n, hq, ha, hkeys, .cons hc hv hvs,
      hfuel, hl => by
    have hkeys : key' :: Dict.keys d = key :: Dict.keys rest := hkeys
    obtain ⟨rfl, htail⟩ := List.cons.inj hkeys
    have hi : (pre ++ (key', c) :: d)[pre.length]? = some (key', c) := by simp
    have hturned := turned_setCell ha (pre.length + 1)
    obtain ⟨u, ds, h₁, hstep, hseen, hl₁⟩ := run_hashStep hk (n := n) hq hl ha hi hc hv
    have hnext := run_hashNext_entry hstep nofun
    have ha' : (g.setCell a (some ⟨m, p, .hash (pre ++ (key', c) :: d) (pre.length + 1)⟩)).cell? a =
        some ⟨m, p, .hash (pre ++ [(key', c)] ++ d) (pre ++ [(key', c)]).length⟩ := by
      rw [cell?_setCell, if_pos ⟨rfl, lt_of_cell? ha⟩, List.append_cons, List.length_append]
      rfl
    obtain ⟨g', seen, ds', h₂, hrest, hturned', hkeys', hseen', hl₂⟩ :=
      run_hashWalk (n := n + ds.length) (hturned.quiet hq) ha' htail
        (hvs.turned hturned.same) (Nat.lt_of_succ_lt_succ hfuel) hl₁
    refine ⟨g', (key', u) :: seen, ds ++ ds', h₂, ?_, hturned.trans hturned', ?_,
      .cons c (hseen.turned hturned'.same) hseen', hl₂.perm ?_⟩
    · rw [HashCursor.toEntries, run_bind_ok hnext]
      dsimp only
      rw [run_bind_ok (run_orRelease_ok hrest), List.length_append, Nat.add_assoc]
      rfl
    · rw [Dict.keys, List.map_cons, ← Dict.keys, hkeys']
      rfl
    · rw [← List.append_assoc]
      exact List.perm_append_comm.append_right es

end

end

theorem run_collect : ∀ {rest} (acc : List (String × Value)), (Dict.keys (acc ++ rest)).Nodup →
    (HashView.collect rest acc).run w = (.ok (acc ++ rest), w)
  | [], acc, _ => by
    rw [List.append_nil]
    rfl
  | (key, v) :: rest, acc, hnodup => by
    have hkey : Dict.get? acc key = none := by
      rw [Dict.get?_eq_none_iff]
      rw [Dict.keys, List.map_append, List.nodup_append] at hnodup
      exact fun hm => hnodup.2.2 key hm key (.head _) rfl
    rw [List.append_cons] at hnodup ⊢
    rw [HashView.collect, hkey, insert_of_get?_none v hkey]
    exact run_collect _ hnodup

section
variable {start : Heap} (hk : w.KeptOn s setup start)
include hk

theorem run_hashToDict {d : Dict CellId} {m : Nat} {p : Option String}
    {entries : List (String × Value)} (hq : g.Quiet) (hl : Lent g h es)
    (ha : g.cell? a = some ⟨m, p, .hash d i⟩) (ha₁ : 1 ≤ m) (hkeys : Dict.keys d = Dict.keys entries)
    (hnodup : (Dict.keys entries).Nodup)
    (hvs : CarriesItems g (Dict.values entries) (Dict.values d) T) :
    ∃ g' seen ds h', (HashView.toDict ⟨⟨s, a⟩⟩).run (w.put s h n) =
        (.ok seen, w.put s h' (n + ds.length)) ∧ Turned [a] g g' ∧
      Dict.keys seen = Dict.keys entries ∧
      SeenItems s g' (Dict.values entries) (Dict.values seen) ds T ∧ Lent g' h' (ds ++ es) := by
  obtain ⟨h₁, hretain, hl₁⟩ := hl.run_retain ha
  have hturned := turned_setCell ha 0
  obtain ⟨h₂, hl₂, hfresh⟩ := run_hashStep_fresh hk (n := n + 1) hq hl₁ ha
  have ha' : (g.setCell a (some ⟨m, p, .hash d 0⟩)).cell? a = some ⟨m, p, .hash ([] ++ d) 0⟩ := by
    rw [cell?_setCell, if_pos ⟨rfl, lt_of_cell? ha⟩]
    rfl
  have hfuel : entries.length < d.length + 1 := by
    have := congrArg List.length hkeys
    simp only [Dict.keys, List.length_map] at this
    omega
  obtain ⟨g', seen, ds, h₃, hwalk, hturned', hkeys', hseen, hl₃⟩ := run_hashWalk hk (n := n + 1)
    (hturned.quiet hq) ha' hkeys (hvs.turned hturned.same) hfuel hl₂
  obtain ⟨j, hj⟩ := ((hturned.trans hturned').same a).of_hash ha
  have hp : (ds ++ a :: es).Perm (a :: (ds ++ es)) := List.perm_middle
  obtain ⟨h₄, hrelease, hl₄⟩ := (hl₃.perm hp).run_release hj ha₁
  refine ⟨g', seen, ds, h₄, ?_, hturned.trans hturned', hkeys', hseen, hl₄⟩
  have hclone : (HashView.cursor ⟨⟨s, a⟩⟩).run (w.put s h n) =
      (.ok ⟨⟨⟨s, a⟩⟩, .fresh⟩, w.put s h₁ (n + 1)) := by
    rw [← hk.clone hretain]
    rfl
  -- the walk starts over when it takes its first step
  have hwalk' : (HashCursor.toEntries (d.length + 1) ⟨⟨⟨s, a⟩⟩, .fresh⟩).run (w.put s h₁ (n + 1)) =
      (.ok seen, w.put s h₃ (n + 1 + ds.length)) := by
    rw [← hwalk]
    exact run_toEntries_fresh hfresh
  have hcollect := run_collect (w := w.put s h₃ (n + 1 + ds.length)) [] (hkeys' ▸ hnodup)
  have hbound := (hk.put h n).run_itemBound_hash (hash_eq_ok_iff.mpr ⟨_, hl.cell ha, rfl⟩)
  rw [HashView.toDict, run_bind_ok hbound, run_bind_ok hclone]
  refine hk.run_holding ?_ hrelease
  rw [Nat.add_right_comm]
  exact (run_bind_ok hwalk').trans hcollect

end

end Embedding
