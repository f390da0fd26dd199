import Embedding.Host.Session
import Embedding.Proofs.Counts
import Embedding.Proofs.Heap.LastErrors
import Embedding.Proofs.Host.Arrivals
import Embedding.Proofs.PendingErrors

/-!
# Calls from within calls

A sub that is entered, from wherever it is called, finds all cells as its caller left them but for `$@`,
which is emptied. So an error that the caller left there is gone when the call returns, and the host hears
only of what was written to `$@` after the last entry.
-/

namespace Embedding

open Heap

variable {h h' : Heap} {σ : List CellId} {e : CellId} {t : Scalar}

namespace Heap

/-- What a sub that is entered finds of a heap, where the stakes are held: the cells are as they were,
except for the error variable, which is empty. -/
structure Entered (e : CellId) (σ : List CellId) (h h' : Heap) : Prop where
  spares : h.Firm (Besides e) h'
  held : ∀ c ∈ σ, h'.isLive c
  named : ∀ slot name c, h.symbol? slot name = some c → h'.isLive c
  empty : h'.scalar e = .ok (.ofBytes [] false)

theorem Sound.entered (hs : h.Sound σ) (he : h.errorCell = .ok e) : Entered e σ h (startFrame h).heap := by
  obtain ⟨h', hclear, -, hs', hfirm, hempty⟩ := run_clearError hs he
  have hstart : (startFrame h).heap = h' := by rw [startFrame, hclear]
  rw [hstart]
  refine ⟨hfirm, fun c hc => hs'.isLive hc, fun slot name c hname => ?_, hempty⟩
  have hname' : h'.symbol? slot name = some c := by
    rw [symbol?, hfirm.symbols]
    exact hname
  obtain ⟨x, hx, -⟩ := hs'.named.sorts slot name c hname'
  exact isLive_of_cell? hx

theorem ErrorIs.pending_iff (hh : ErrorIs e t h) (hs : h.Sound σ) : h.Pending ↔ t.isTrue = true := by
  have htrue : h.isTrue e = .ok t.isTrue := by
    rcases hh.scalar hs with he | he
    · exact isTrue_ok he
    · rw [isTrue_ok he, t.isTrue_numified]
  constructor
  · rintro ⟨c, hc, hpending⟩
    obtain rfl : e = c := Except.ok.inj (hh.errorCell.symm.trans hc)
    exact Except.ok.inj (htrue.symm.trans hpending)
  · intro ht
    exact ⟨e, hh.errorCell, ht ▸ htrue⟩

theorem Sound.run_callError {depth : Nat} {target : Target CellId} {args : List CellId} {context : Context}
    (hs : h.Sound σ) (he : h.errorCell = .ok e)
    (hleft : callError e depth target args context h = some t) :
    ∃ values h', (callWithin depth target args context).run h = (.ok values, h') ∧ h'.Holds e t := by
  obtain ⟨s, hh⟩ := hs.errorIs he
  obtain ⟨⟨values, hvalues⟩, hh'⟩ := hh.callWithin hleft
  obtain ⟨-, hs', -⟩ := loses_callWithin depth target args context h σ hs
  exact ⟨values, _, Prod.ext hvalues rfl, hh'.scalar hs'⟩

end Heap

theorem isPlain_of_errorLeft {shape : Shape} {request : Request Handle shape} {setup : Setup}
    (hleft : (request.map Handle.cell).errorLeft e setup h = some t) : request.isPlain = true := by
  cases request with
  | call _ _ _ | eval _ _ => rfl
  | _ => cases hleft

/-- A sub that is entered finds the cells as they were, and an empty error variable. A call that returns
leaves there what was last written since it began, and so nothing if that was the entry into a sub,
whatever the caller had left. A request of the host to run code succeeds if what is left there is false,
and is otherwise answered with it as the error. -/
theorem nested_calls (hs : h.Sound σ) (he : h.errorCell = .ok e) :
    (∀ target args context body h₁, callee? target args context h = some (body, h₁) →
      Entered e σ h (startFrame h₁).heap) ∧
    (∀ depth target args context t, callError e depth target args context h = some t →
      ∃ values h', (callWithin depth target args context).run h = (.ok values, h') ∧ h'.Holds e t) ∧
    (∀ depth target args context, CallSpares e depth target args context h →
      ∃ values h', (callWithin depth target args context).run h = (.ok values, h') ∧
        h'.Holds e (.ofBytes [] false)) ∧
    ∀ {w : World} {s : SessionId} {setup : Setup} {shape : Shape} (operation : String)
      (request : Request Handle shape) (t : Scalar), w.RunsOn s setup h →
      (request.map Handle.cell).errorLeft e setup h = some t →
      ((∃ answer, ((cross s operation request).run w).1 = .ok answer) ↔ t.isTrue = false) ∧
        (t.isTrue = true → ∃ x h₂ w₂, h₂.Holds x t ∧
          Raises s h₂ w₂ x ((cross s operation request).run w).1) := by
  refine ⟨?_, fun _ _ _ _ _ hleft => hs.run_callError he hleft,
    fun _ _ _ _ hspares => hs.run_callError he hspares.callError, ?_⟩
  · intro target args context body h₁ hcallee
    obtain rfl := callee?_eq_some hcallee
    exact hs.entered he
  · intro w s setup shape operation request t hr hleft
    obtain ⟨s₀, hh⟩ := hs.errorIs he
    have hplain := isPlain_of_errorLeft hleft
    have hplain' := (isPlain_map Handle.cell request).trans hplain
    obtain ⟨r, h₁, pending, h₂, w₂, hanswer, -, -, hreports⟩ :=
      run_cross_reports hr ⟨[], hs⟩ hplain operation
    obtain ⟨-, leak, hs₁, -⟩ :=
      (tracks_answer setup _ (released?_of_isPlain hplain') h σ hs).of_run hanswer
    obtain ⟨⟨a, ha⟩, hh₁⟩ := hh.answer hleft
    rw [hanswer] at ha hh₁
    have hpending := hh₁.pending_iff hs₁
    refine ⟨?_, fun htrue => ?_⟩
    · rw [hreports.succeeds, hpending, Bool.not_eq_true]
      exact ⟨And.right, fun hfalse => ⟨⟨a, ha⟩, hfalse⟩⟩
    · obtain ⟨c, hc, hcTrue⟩ := hpending.2 htrue
      obtain rfl : e = c := Except.ok.inj (hh₁.errorCell.symm.trans hc)
      obtain ⟨x, hx, hraises⟩ := hreports.finds a e ha hc hcTrue
      refine ⟨x, h₂, w₂, ?_, hraises⟩
      unfold Holds
      rw [hx]
      exact hh₁.scalar hs₁

/-! ## An error that is lost -/

/-- One sub leaves an error and then calls another one. -/
def losing : Setup :=
  Setup.preload {} {
    name := "P"
    subs := [
      ("f", fun _ => do
        let text ← Proc.perform (.newText "boom")
        Proc.perform (.setError text)
        let _ ← Proc.perform (.call (.named "P::g") [])
        return []),
      ("g", fun _ => return [])] }

open Console

def losingStart : List Line := [{ command := .session ⟨0⟩ (.toForeign (.int 1)), into := some "x" }]

def losingConsole : Console := (run losingStart (.single losing)).2

def losingCall : Request Handle .cells := .call (.named "P::f") [] .list

/-- The host does not hear of the error. -/
theorem nested_calls_losing :
    ∃ answer, ((cross ⟨0⟩ "call" losingCall).run losingConsole.world).1 = .ok answer := by
  have hreach : Reached (Console.single losing).world losingConsole.world losingConsole.handles := by
    rw [losingConsole]
    exact reached_run (fresh_single _) losingStart
  have hstage : (losingConsole.world.session ⟨0⟩).stage = .initialized := by decide +kernel
  have herror : (losingConsole.world.session ⟨0⟩).engine.interpreter.heap.all fun h =>
      decide (h.errorCell.toOption = some ⟨1⟩) &&
        decide ((losingCall.map Handle.cell).errorLeft ⟨1⟩ losing h = some (.ofBytes [] false)) := by
    decide +kernel
  obtain ⟨h, hr, lost, hs⟩ := (hreach.leaky (fresh_single _).world).runsOn hstage
  rw [hr.engine, Option.all_some, Bool.and_eq_true, decide_eq_true_eq, decide_eq_true_eq] at herror
  obtain ⟨he, hleft⟩ := herror
  exact (((nested_calls hs (eq_ok_of_toOption he)).2.2.2 "call" losingCall _ hr hleft).1).2 rfl

/-- The interpreter after a host has written an error to `$@`. -/
def pendingStart : Interpreter :=
  let start := ((⟨losing, none⟩ : Interpreter).perform (.construct [])).2
  let found := (start.perform (.global .scalar "@" false)).2
  let made := (found.perform (.newBytes (Utf8.encode "boom") true)).2
  (made.perform (.assign ⟨1⟩ ⟨7⟩)).2

theorem runs_pending : Runs losing pendingStart [⟨7⟩, ⟨1⟩] := by
  have hstart := (Runs.start : Runs losing _ _).request (.construct []) nofun fun _ _ => trivial
  have hfound : Runs losing _ [⟨1⟩] :=
    (hstart.request (.global .scalar "@" false) nofun fun _ _ => trivial).of_eq (by decide +kernel)
  have hmade : Runs losing _ [⟨7⟩, ⟨1⟩] :=
    (hfound.request (.newBytes (Utf8.encode "boom") true) nofun fun _ _ => trivial).of_eq
      (by decide +kernel)
  exact (hmade.request (.assign ⟨1⟩ ⟨7⟩) nofun fun _ _ => trivial).of_eq (by decide +kernel)

/-- A call that does not touch the error variable neither shows it to the callee as it was nor leaves it. -/
theorem error_lost :
    (¬ ∀ (h : Heap) σ target args context body h₁, h.Sound σ →
      callee? target args context h = some (body, h₁) → ∀ c ∈ args, c ∈ σ →
        (startFrame h₁).heap.toBytes c = h.toBytes c) ∧
    ¬ ∀ (h : Heap) σ e s depth target args context, h.Sound σ → h.errorCell = .ok e → h.scalar e = .ok s →
      CallSpares e depth target args context h →
        ((callWithin depth target args context).run h).2.scalar e = .ok s := by
  obtain ⟨h, hh⟩ : ∃ h, pendingStart.heap = some h := Option.isSome_iff_exists.1 (by decide +kernel)
  have hs : h.Sound [⟨7⟩, ⟨1⟩] := runs_pending.heap_sound hh
  have herror : pendingStart.heap.all fun h =>
      decide (h.errorCell.toOption = some ⟨1⟩) &&
        decide ((h.scalar ⟨1⟩).toOption = some (.ofText "boom")) &&
        decide ((h.toBytes ⟨1⟩).toOption = some (Utf8.encode "boom")) &&
        decide (((startFrame h).heap.toBytes ⟨1⟩).toOption = some []) &&
        (callee? (.named "P::g") [⟨1⟩] .list h).isSome &&
        decide (CallSpares ⟨1⟩ maxDepth (.named "P::g") [⟨1⟩] .list h) := by decide +kernel
  rw [hh, Option.all_some] at herror
  simp only [Bool.and_eq_true, decide_eq_true_eq] at herror
  obtain ⟨⟨⟨⟨⟨he, hboom⟩, hbytes⟩, hempty⟩, hcallee⟩, hspares⟩ := herror
  have he := eq_ok_of_toOption he
  have hboom := eq_ok_of_toOption hboom
  constructor
  · intro hreads
    obtain ⟨⟨body, h₁⟩, hcallee⟩ := Option.isSome_iff_exists.1 hcallee
    obtain rfl := callee?_eq_some hcallee
    have hsame := hreads _ _ _ _ _ _ _ hs hcallee ⟨1⟩ (.head _) (.tail _ (.head _))
    rw [hsame, hbytes] at hempty
    exact absurd hempty (by decide +kernel)
  · intro hkeeps
    have hsame := hkeeps h _ _ _ _ _ _ _ hs he hboom hspares
    obtain ⟨values, h', hrun, hholds⟩ := hs.run_callError he hspares.callError
    rw [hrun] at hsame
    have htext : (Scalar.ofText "boom").text = some ⟨[], false⟩ := by
      rcases hholds with hempty | hempty
      · rw [← Except.ok.inj (hempty.symm.trans hsame)]
        rfl
      · rw [← Except.ok.inj (hempty.symm.trans hsame), Scalar.numified_text]
        rfl
    exact absurd htext (by decide +kernel)

end Embedding
