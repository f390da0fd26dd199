import Embedding.Proofs.Counts

/-!
# Calls that fail

A call can fail because its body dies, because the body dies with a freed cell, or because a cell that
the body returned was freed. The main statement says what stakes there are afterwards, however deep calls
were nested: those of before, one in the cell that the call died with, and one in each copy of a return
value that was made before another one could not be copied. Nobody owns these copies. They stay.
-/

namespace Embedding

namespace Heap

/-- The counts after a call that failed. Every temporary of every frame has been given back; what is left
over are copies of earlier return values, and none if all bodies that ran ended with live cells. -/
theorem failed_invocation {depth : Nat} {body : Proc (List CellId)} {context : Context} {h h' : Heap}
    {σ : List CellId} {e : Fault} (hs : h.Sound σ)
    (hrun : (invoke (fun target args => callWithin depth target args .list) body context).run h =
      (.error e, h')) :
    let lost := bodyLost (fun target args => callWithin depth target args .list)
      (fun target args => callLost depth target args .list) body h
    h'.Exact (e.stakes ++ (lost ++ σ)) ∧
      (BodyEndsLive (fun target args => callWithin depth target args .list)
        (fun target args => CallEndsLive depth target args .list) body h → lost = []) := by
  have hcall := fun target args h => loses_callWithin depth target args .list h
  have hloses := loses_invoke hcall body context h σ hs
  unfold Ends at hloses
  rw [hrun] at hloses
  obtain ⟨-, hs', htidy⟩ := hloses
  exact ⟨hs'.exact, htidy⟩

end Heap

/-- A sub that returns a new number and then its arguments. -/
def numberFirst : NativeSub := fun call => do
  let number ← Proc.perform (.newInt 5)
  return number :: call.args

def numbering : Setup := Setup.preload {} { name := "P", subs := [("f", numberFirst)] }

def numberingStart : Interpreter :=
  let start := ((⟨numbering, none⟩ : Interpreter).perform (.construct [])).2
  ((start.perform (.newInt 7)).2.perform (.release ⟨6⟩)).2

theorem runs_numbering : Runs numbering numberingStart [] := by
  have hstart := (Runs.start : Runs numbering _ _).request (.construct []) nofun fun _ _ => trivial
  have hnumber : Runs numbering _ [⟨6⟩] :=
    (hstart.request (.newInt 7) nofun fun _ _ => trivial).of_eq (by decide +kernel)
  refine (hnumber.request (.release ⟨6⟩) ?_ fun _ _ => trivial).of_eq (by decide +kernel)
  rintro c ⟨⟩
  exact List.mem_singleton.2 rfl

def numberingCall : HeapM (List CellId) :=
  Heap.invoke (fun target args => Heap.callWithin Heap.maxDepth target args .list)
    (numberFirst ⟨"P::f", [⟨6⟩], .list⟩) .list

/-- The copy of the number is made, and nothing holds it after the argument could not be copied. -/
theorem run_numberingCall : ∃ h h', numberingStart.heap = some h ∧
    numberingCall.run h = (.error (.freed ⟨6⟩), h') ∧ h'.isLive ⟨9⟩ ∧ ⟨9⟩ ∉ h'.places := by
  obtain ⟨h, hh⟩ : ∃ h, numberingStart.heap = some h := Option.isSome_iff_exists.1 (by decide +kernel)
  have hcall : numberingStart.heap.all fun h =>
      match numberingCall.run h with
      | (.error e, h') =>
        decide (e = .freed ⟨6⟩) && (h'.cell? ⟨9⟩).isSome && decide (⟨9⟩ ∉ h'.places)
      | (.ok _, _) => false := by decide +kernel
  rw [hh, Option.all_some] at hcall
  split at hcall
  · next e h' hrun =>
    simp only [Bool.and_eq_true, decide_eq_true_eq] at hcall
    obtain ⟨⟨rfl, hlive⟩, hplaces⟩ := hcall
    exact ⟨h, h', hh, hrun, hlive, hplaces⟩
  · cases hcall

theorem failed_invocation_numbering : ∃ h h' lost, numberingStart.heap = some h ∧ h.Sound [] ∧
    numberingCall.run h = (.error (.freed ⟨6⟩), h') ∧ h'.Exact lost ∧ lost.count ⟨9⟩ = 1 := by
  obtain ⟨h, h', hh, hrun, hlive, hplaces⟩ := run_numberingCall
  have hsound : h.Sound [] := runs_numbering.heap_sound hh
  have hexact := (Heap.failed_invocation hsound hrun).1
  have hlost : (numberingStart.heap.map fun h =>
      Heap.bodyLost (fun target args => Heap.callWithin Heap.maxDepth target args .list)
        (fun target args => Heap.callLost Heap.maxDepth target args .list)
        (numberFirst ⟨"P::f", [⟨6⟩], .list⟩) h) = some [⟨9⟩] := by decide +kernel
  rw [hh, Option.map_some, Option.some.injEq] at hlost
  rw [hlost] at hexact
  exact ⟨h, h', _, hh, hsound, hrun, hexact, rfl⟩

/-- A failed call can leave a cell that nobody owns. -/
theorem copy_left_behind : ∃ h h' e, h.Sound [] ∧ numberingCall.run h = (.error e, h') ∧
    ¬ h'.Exact (e.stakes ++ []) := by
  obtain ⟨h, h', hh, hrun, hlive, hplaces⟩ := run_numberingCall
  refine ⟨h, h', _, runs_numbering.heap_sound hh, hrun, fun hexact => ?_⟩
  obtain ⟨x, hx⟩ := Heap.exists_cell hlive
  obtain ⟨hcount, hone⟩ := hexact.counts _ x hx
  have hzero : (h'.places ++ ((Fault.freed ⟨6⟩).stakes ++ [])).count (⟨9⟩ : CellId) = 0 := by
    simpa [Fault.stakes, Fault.diedValue?, List.count_eq_zero] using hplaces
  omega

end Embedding
