import Embedding.Console.Step
import Embedding.Host.Equality
import Embedding.Proofs.PendingErrors

/-!
# Equality of values

In every world that a host can reach, equality of values decides a relation between them, and changes
nothing when it holds. It looks at the numbers of cells and at no sessions, so that views of one
session are equal only if they stand for the same cell, while views of two sessions can be equal by
accident.
-/

namespace Embedding

open Console

variable {origin w : World} {hs : List Handle} {P Q : Prop} {x y : HostM Bool} {a b : Handle}

/-- A question about the handle would be answered with the cell that it stands for. -/
def World.Identifies (w : World) (h : Handle) (c : CellId) : Prop :=
  (w.session h.session).stage = .initialized ∧
    ∃ heap, (w.session h.session).engine.interpreter.heap = some heap ∧ ¬ heap.Pending ∧
      heap.identity h.cell = .ok c

def World.SameReferent (w : World) (a b : Handle) : Prop := ∃ c, w.Identifies a c ∧ w.Identifies b c

def World.SameCell (w : World) (a b : Handle) : Prop := a.cell = b.cell ∨ w.SameReferent a b

theorem World.Identifies.unique {h : Handle} {c d : CellId} (hc : w.Identifies h c)
    (hd : w.Identifies h d) : c = d := by
  obtain ⟨-, heap, hheap, -, hc⟩ := hc
  obtain ⟨-, heap', hheap', -, hd⟩ := hd
  obtain rfl : heap = heap' := Option.some.inj (hheap.symm.trans hheap')
  exact Except.ok.inj (hc.symm.trans hd)

mutual

/-- What makes values equal. -/
def Alike (w : World) : Value → Value → Prop
  | .nothing, .nothing => True
  | .bool a, .bool b => a = b
  | .int a, .int b => a = b
  | .float a, .float b => a.numEq b = true
  | .text a, .text b => a = b
  | .bytes a, .bytes b => a = b
  | .list as, .list bs => AlikeItems w as bs
  | .mapping as, .mapping bs => as.length = bs.length ∧ AlikeEntries w as bs
  | .array a, .array b => w.SameCell a.cell b.cell
  | .hash a, .hash b => w.SameCell a.cell b.cell
  | .callable (.code a), .callable (.code b) => w.SameCell a b
  | .callable (.method a m), .callable (.method b n) => m = n ∧ w.SameReferent a b
  | .object a, .object b => w.SameReferent a.reference b.reference
  | _, _ => False

def AlikeItems (w : World) : List Value → List Value → Prop
  | [], [] => True
  | a :: as, b :: bs => Alike w a b ∧ AlikeItems w as bs
  | _, _ => False

/-- Every entry has its like of the same key. -/
def AlikeEntries (w : World) : List (String × Value) → Dict Value → Prop
  | [], _ => True
  | (key, a) :: as, bs => (∃ b, bs.get? key = some b ∧ Alike w a b) ∧ AlikeEntries w as bs

end

theorem AlikeItems.length : ∀ {as bs}, AlikeItems w as bs → as.length = bs.length
  | [], [], _ => rfl
  | _ :: _, _ :: _, h => congrArg (· + 1) (AlikeItems.length h.2)

/-! ## Questions that are answered -/

/-- The question has an answer, and leaves the world alone when it is yes. -/
def Decides (w : World) (x : HostM Bool) (P : Prop) : Prop :=
  ∃ r w', x.run w = (.ok r, w') ∧ (r = true ↔ P) ∧ (r = true → w' = w)

theorem decides_pure {r : Bool} (hr : r = true ↔ P) : Decides w (pure r) P :=
  ⟨r, w, rfl, hr, fun _ => rfl⟩

theorem decides_false (hP : ¬ P) : Decides w (pure false) P :=
  decides_pure ⟨nofun, fun h => absurd h hP⟩

theorem decides_decide (P : Prop) [Decidable P] : Decides w (pure (decide P)) P :=
  decides_pure decide_eq_true_iff

theorem Decides.congr (hx : Decides w x P) (hPQ : P ↔ Q) : Decides w x Q := by
  obtain ⟨r, w', hrun, hr, hsame⟩ := hx
  exact ⟨r, w', hrun, hr.trans hPQ, hsame⟩

theorem Decides.when [Decidable P] (hx : Decides w x Q) :
    Decides w (if P then x else return false) (P ∧ Q) := by
  split
  · next hP => exact hx.congr (and_iff_right hP).symm
  · next hP => exact decides_false fun h => hP h.1

theorem Decides.and (hx : Decides w x P) (hy : Decides w y Q) :
    Decides w (do if ← x then y else return false) (P ∧ Q) := by
  obtain ⟨r, w₁, hrun, hr, hsame⟩ := hx
  cases r with
  | false =>
    have hP : ¬ P := fun h => nomatch hr.2 h
    exact ⟨false, w₁, run_bind_ok hrun, ⟨nofun, fun h => absurd h.1 hP⟩, nofun⟩
  | true =>
    obtain rfl := hsame rfl
    obtain ⟨r', w₂, hrun', hr', hsame'⟩ := hy
    exact ⟨r', w₂, (run_bind_ok hrun).trans hrun', hr'.trans (and_iff_right (hr.1 rfl)).symm, hsame'⟩

theorem run_toOption {α : Type} (x : HostM α) (w : World) : x.toOption.run w = match x.run w with
    | (.ok a, w') => (.ok (some a), w')
    | (.error e, w') => (.ok none, w'.releaseAll e.handles) := by
  rw [HostM.toOption, run_bind_ok (HostM.run_attempt x w)]
  rcases x.run w with ⟨_ | _, w'⟩ <;> rfl

/-! ## Questions about identity -/

section
variable (hfresh : origin.Fresh) (hreach : Reached origin w hs)
include hfresh hreach

theorem run_identity (h : Handle) : (∃ c, w.Identifies h c ∧ h.identity.run w = (.ok c, w)) ∨
    (∀ c, ¬ w.Identifies h c) ∧ ∃ e w', h.identity.run w = (.error e, w') := by
  by_cases hstage : (w.session h.session).stage = .initialized
  · obtain ⟨heap, hr, hl⟩ := (hreach.leaky hfresh).runsOn hstage
    have hheap : (w.session h.session).engine.interpreter.heap = some heap := by rw [hr.engine]
    obtain ⟨r, h₁, pending, h₂, w₂, hanswer, -, -, hreports⟩ :=
      run_cross_reports hr hl (show (Request.identity h).isPlain = true from rfl) "identity"
    obtain ⟨rfl, rfl⟩ : heap.identity h.cell = r ∧ heap = h₁ := Prod.mk.inj hanswer
    -- the question itself raises nothing, so it fails only over the cell or over an old error
    by_cases hok : (∃ c, heap.identity h.cell = .ok c) ∧ ¬ heap.Pending
    · obtain ⟨⟨c, hc⟩, hquiet⟩ := hok
      obtain ⟨lost, hsound⟩ := hl
      refine .inl ⟨c, ⟨hstage, heap, hheap, hquiet, hc⟩, ?_⟩
      have hrun : h.identity.run w = _ :=
        hr.run_crossWith_quiet hanswer (hsound.quiet_iff.2 hquiet) (hc ▸ Heap.deathless_ok c)
      rw [hrun, hc]
      exact congrArg (Prod.mk _) hr.put_self
    · refine .inr ⟨fun c hc => ?_, ?_⟩
      · obtain ⟨-, heap', hheap', hquiet, hc⟩ := hc
        obtain rfl : heap = heap' := Option.some.inj (hheap.symm.trans hheap')
        exact hok ⟨⟨c, hc⟩, hquiet⟩
      · cases hrun : h.identity.run w with
        | mk result w' =>
          cases result with
          | error e => exact ⟨e, w', rfl⟩
          | ok c => exact absurd (hreports.succeeds.1 ⟨c, congrArg Prod.fst hrun⟩) hok
  · refine .inr ⟨fun c hc => hstage hc.1, ?_⟩
    cases hrefusal : (w.session h.session).stage.refusal "identity" with
    | none => exact absurd (refusal_eq_none_iff.1 hrefusal) hstage
    | some e =>
      have hrun := run_ensureLive h.session "identity" w
      rw [hrefusal] at hrun
      exact ⟨e, w, by rw [Handle.identity, cross, crossWith_eq, run_bind_error hrun]⟩

theorem decides_sameReferent (a b : Handle) : Decides w (a.sameReferent b) (w.SameReferent a b) := by
  unfold Handle.sameReferent
  rcases run_identity hfresh hreach a with ⟨c, ha, hrun⟩ | ⟨ha, e, w', hrun⟩
  · have hfirst : a.identity.toOption.run w = (.ok (some c), w) := by rw [run_toOption, hrun]
    rcases run_identity hfresh hreach b with ⟨d, hb, hrun'⟩ | ⟨hb, e, w', hrun'⟩
    · have hsecond : b.identity.toOption.run w = (.ok (some d), w) := by rw [run_toOption, hrun']
      refine ⟨_, w, (run_bind_ok hfirst).trans (run_bind_ok hsecond), ?_, fun _ => rfl⟩
      simp only [Option.isSome_some, Bool.true_and, decide_eq_true_eq, Option.some.injEq]
      refine ⟨fun hcd => ⟨c, ha, hcd ▸ hb⟩, fun ⟨c', ha', hb'⟩ => ?_⟩
      exact (ha.unique ha').trans (hb.unique hb').symm
    · have hsecond : b.identity.toOption.run w = (.ok none, w'.releaseAll e.handles) := by
        rw [run_toOption, hrun']
      exact ⟨_, _, (run_bind_ok hfirst).trans (run_bind_ok hsecond),
        ⟨nofun, fun ⟨d, _, hb'⟩ => absurd hb' (hb d)⟩, nofun⟩
  · have hfirst : a.identity.toOption.run w = (.ok none, w'.releaseAll e.handles) := by
      rw [run_toOption, hrun]
    -- whatever the second question is answered with, it comes to nothing
    obtain ⟨answer, w₂, hsecond⟩ := unfailing_toOption b.identity (w'.releaseAll e.handles)
    exact ⟨_, _, (run_bind_ok hfirst).trans (run_bind_ok hsecond),
      ⟨nofun, fun ⟨c, ha', _⟩ => absurd ha' (ha c)⟩, nofun⟩

end

/-! ## Values -/

section
variable (hsame : ∀ a b : Handle, Decides w (a.sameReferent b) (w.SameReferent a b))
include hsame

theorem decides_sameCell (a b : Handle) : Decides w (a.sameCell b) (w.SameCell a b) := by
  unfold Handle.sameCell
  split
  · next hcell => exact decides_pure ⟨fun _ => .inl hcell, fun _ => rfl⟩
  · next hcell =>
    exact (hsame a b).congr (or_iff_right hcell).symm

end

mutual

theorem decides_equal (hsame : ∀ a b : Handle, Decides w (a.sameReferent b) (w.SameReferent a b)) :
    ∀ a b : Value, Decides w (a.equal b) (Alike w a b)
  | .nothing, b => by
    cases b with
    | nothing => exact decides_pure ⟨fun _ => trivial, fun _ => rfl⟩
    | _ => exact decides_false nofun
  | .bool a, b => by
    cases b with
    | bool b => exact decides_decide (a = b)
    | _ => exact decides_false nofun
  | .int a, b => by
    cases b with
    | int b => exact decides_decide (a = b)
    | _ => exact decides_false nofun
  | .float a, b => by
    cases b with
    | float b => exact decides_pure Iff.rfl
    | _ => exact decides_false nofun
  | .text a, b => by
    cases b with
    | text b => exact decides_decide (a = b)
    | _ => exact decides_false nofun
  | .bytes a, b => by
    cases b with
    | bytes b => exact decides_decide (a = b)
    | _ => exact decides_false nofun
  | .list as, b => by
    cases b with
    | list bs =>
      rw [Value.equal, Alike]
      split
      · next hlength => exact decides_equalItems hsame as bs hlength
      · next hlength => exact decides_false fun h => hlength (AlikeItems.length h)
    | _ => exact decides_false nofun
  | .mapping as, b => by
    cases b with
    | mapping bs => exact (decides_equalEntries hsame as bs).when
    | _ => exact decides_false nofun
  | .array a, b => by
    cases b with
    | array b => exact decides_sameCell hsame a.cell b.cell
    | _ => exact decides_false nofun
  | .hash a, b => by
    cases b with
    | hash b => exact decides_sameCell hsame a.cell b.cell
    | _ => exact decides_false nofun
  | .callable (.code a), b => by
    cases b with
    | callable b =>
      cases b with
      | code b => exact decides_sameCell hsame a b
      | method b n => exact decides_false nofun
    | _ => exact decides_false nofun
  | .callable (.method a m), b => by
    cases b with
    | callable b =>
      cases b with
      | code b => exact decides_false nofun
      | method b n => exact (hsame a b).when
    | _ => exact decides_false nofun
  | .object a, b => by
    cases b with
    | object b => exact hsame a.reference b.reference
    | _ => exact decides_false nofun

theorem decides_equalItems
    (hsame : ∀ a b : Handle, Decides w (a.sameReferent b) (w.SameReferent a b)) :
    ∀ as bs : List Value, as.length = bs.length →
    Decides w (Value.equalItems as bs) (AlikeItems w as bs)
  | [], [], _ => decides_pure ⟨fun _ => trivial, fun _ => rfl⟩
  | a :: as, b :: bs, hlength =>
    (decides_equal hsame a b).and (decides_equalItems hsame as bs (Nat.succ.inj hlength))

theorem decides_equalEntries
    (hsame : ∀ a b : Handle, Decides w (a.sameReferent b) (w.SameReferent a b)) :
    ∀ (as : List (String × Value)) (bs : Dict Value),
    Decides w (Value.equalEntries as bs) (AlikeEntries w as bs)
  | [], _ => decides_pure ⟨fun _ => trivial, fun _ => rfl⟩
  | (key, a) :: as, bs => by
    rw [Value.equalEntries, AlikeEntries]
    cases hb : Dict.get? bs key with
    | none => exact decides_false fun ⟨⟨_, hb', _⟩, _⟩ => nomatch hb'
    | some b =>
      refine ((decides_equal hsame a b).and (decides_equalEntries hsame as bs)).congr
        (and_congr_left fun _ => ?_)
      exact ⟨fun h => ⟨b, rfl, h⟩, fun ⟨_, hb', h⟩ => Option.some.inj hb' ▸ h⟩

end

theorem World.SameCell.eq_or (hsame : w.SameCell a b) (hsession : a.session = b.session) :
    a = b ∨ w.SameReferent a b := by
  refine hsame.imp_left fun hcell => ?_
  obtain ⟨s, c⟩ := a
  obtain ⟨t, d⟩ := b
  cases hsession
  cases hcell
  rfl

theorem Alike.sameCell {u v : Value} (hu : u.isView = true) (huv : Alike w u v) (ha : a ∈ u.handles)
    (hb : b ∈ v.handles) : w.SameCell a b := by
  have hcells {c d : Handle} (hcd : w.SameCell c d) (ha : a ∈ [c]) (hb : b ∈ [d]) :
      w.SameCell a b := by
    rwa [List.mem_singleton.1 ha, List.mem_singleton.1 hb]
  cases u with
  | array u =>
    cases v with
    | array v => exact hcells huv ha hb
    | _ => exact huv.elim
  | hash u =>
    cases v with
    | hash v => exact hcells huv ha hb
    | _ => exact huv.elim
  | callable u =>
    cases v with
    | callable v =>
      cases u <;> cases v
      · exact hcells huv ha hb
      · exact huv.elim
      · exact huv.elim
      -- bound methods are alike by what their receivers refer to, not by the cells of those
      · exact hcells (.inr huv.2) ha hb
    | _ => cases u <;> exact huv.elim
  | object u =>
    cases v with
    | object v => exact hcells (.inr huv) ha hb
    | _ => exact huv.elim
  | _ => cases hu

/-- Equality finds out whether values are alike. Alike views of one session stand for the same cell; of
views of two sessions, nothing but the numbers is compared. -/
theorem equal_views (hfresh : origin.Fresh) (hreach : Reached origin w hs) (u v : Value) :
    Decides w (u.equal v) (Alike w u v) ∧
      (u.isView = true → Alike w u v → ∀ a ∈ u.handles, ∀ b ∈ v.handles, a.session = b.session →
        a = b ∨ w.SameReferent a b) :=
  ⟨decides_equal (decides_sameReferent hfresh hreach) u v,
    fun hu huv _ ha _ hb hsession => (huv.sameCell hu ha hb).eq_or hsession⟩

def alone : List Line := [{ command := .session ⟨0⟩ (.newArray []), into := some "a" }]

theorem equal_views_alone :
    let u : Value := .array ⟨⟨⟨0⟩, ⟨5⟩⟩⟩
    (run alone (Console.single {})).2.handles = u.handles ∧
      ((u.equal u).run (run alone (Console.single {})).2.world).1 = .ok true := by
  refine ⟨by decide +kernel, ?_⟩
  obtain ⟨r, w', hrun, hr, -⟩ := (equal_views (fresh_single {}).world
    (reached_run (fresh_single {}) alone) (.array ⟨⟨⟨0⟩, ⟨5⟩⟩⟩) (.array ⟨⟨⟨0⟩, ⟨5⟩⟩⟩)).1
  rw [hrun, hr.2 (.inl rfl)]

def twins : List Step := [
  .create { interpreter := {} } {},
  .create { interpreter := {} } {},
  .line { command := .session ⟨0⟩ (.newArray []), into := some "a" },
  .line { command := .session ⟨1⟩ (.newArray [.int 1]), into := some "b" }]

/-- Arrays of two sessions are taken for one another. -/
theorem not_sameSession_of_equal : ¬ ∀ a b : ArrayView, a.cell ∈ (after twins).handles →
    b.cell ∈ (after twins).handles →
    (((Value.array a).equal (.array b)).run (after twins).world).1 = .ok true →
      a.cell.session = b.cell.session := by
  intro hsessions
  have hsame := hsessions ⟨⟨⟨0⟩, ⟨5⟩⟩⟩ ⟨⟨⟨1⟩, ⟨5⟩⟩⟩ (by decide +kernel) (by decide +kernel) rfl
  cases hsame

end Embedding
