import Embedding.Proofs.Host.Methods
import Embedding.Proofs.Tidy

/-!
# Asking for a method and calling it

An object that is asked with `can` whether it has a method looks the name up in its class, whatever the
name is. A call does so only with names that have no package: other names are those of subs.
-/

namespace Embedding

open Heap

variable {origin w : World} {hs : List Handle} {h : Heap} {o : ObjectView} {className : String}

/-- What an object has for a method, and what a call of the method runs. The class has the sub `can` that
all classes have. What `can` finds becomes its answer; a call runs that, too, if the name of the method
has no package, and fails if nothing is found. -/
theorem can_and_calls (hfresh : origin.Fresh) (ha : Arrived origin o.reference.session w hs h)
    (ho : o.reference ∈ hs) (hclass : h.className o.reference.cell = .ok (some className))
    (hcan : h.HasCan className) (method : String) :
    ((o.can method).run w).1 =
        h.canAnswer o.reference.session (h.resolveMethod className method) ∧
      ∀ args, Value.handlesOfItems args ⊆ hs → ((o.callMethod method args).run w).1 =
        o.dispatch className method args w
          (if Name.hasPackage method.toList then h.symbol? .code method
          else h.resolveMethod className method) :=
  ⟨ha.run_can hfresh ho hclass hcan method, fun _ hargs =>
    ha.run_callMethod hfresh ho hclass method hargs⟩

def looked : Setup :=
  Setup.provide {} {
    name := "P"
    subs := [
      ("new", fun _ => do
        let hash ← Proc.perform (.newHash [])
        return [← Proc.perform (.bless hash "P")]),
      ("f", fun _ => return [])] }

open Console

def lookedStart : List Line := [
  { command := .session ⟨0⟩ (.load "P"), into := some "p" },
  { command := .package "p" (.construct []), into := some "o" }]

def lookedConsole : Console := (run lookedStart (.single looked)).2

def lookedObject : ObjectView := ⟨⟨⟨0⟩, ⟨12⟩⟩, "P"⟩

theorem reached_looked :
    Reached (Console.single looked).world lookedConsole.world lookedConsole.handles := by
  rw [lookedConsole]
  exact reached_run (fresh_single _) lookedStart

/-- Without arguments the sub first makes an undefined value. -/
def NativeSub.opensUndef (body : NativeSub) : Bool :=
  match body ⟨"", [], .list⟩ with
  | .act .newUndef _ => true
  | _ => false

theorem bodies_looked : looked.AllBodies fun body => body.opensUndef = true → body = Universal.can where
  isa := nofun
  can _ := rfl
  subs name p hp sub hsub := by
    have hp := Heap.mem_values_of_get? hp
    obtain rfl := List.mem_singleton.1 hp
    rcases List.mem_cons.1 hsub with rfl | hsub
    · nofun
    · obtain rfl := List.mem_singleton.1 hsub
      nofun
  evaluator := nofun

def Content.opensUndef : Content → Bool
  | .code _ body => body.opensUndef
  | _ => false

theorem bodies_none : ({} : Setup).AllBodies fun body => body.opensUndef = true → body = Universal.can where
  isa := nofun
  can _ := rfl
  subs _ _ hp := by cases hp
  evaluator := nofun

theorem arrived_looked : ∃ h, Arrived (Console.single looked).world ⟨0⟩ lookedConsole.world
    lookedConsole.handles h ∧ h.HasCan "P" := by
  obtain ⟨h, hr, -⟩ := (reached_looked.leaky (fresh_single _).world).runsOn
    (show (lookedConsole.world.session ⟨0⟩).stage = .initialized by decide +kernel)
  have ha : Arrived (Console.single looked).world ⟨0⟩ lookedConsole.world lookedConsole.handles h :=
    ⟨reached_looked, hr⟩
  have hbodies : h.AllSubs fun body => body.opensUndef = true → body = Universal.can := by
    refine ha.invariant (fresh_single _).world stable_contents (Content.free_latitude _) (fun s => ?_)
      contents_initial
    rcases session_single looked s with hs | hs <;> rw [hs]
    · exact bodies_looked.code
    · exact bodies_none.code
  have hopens : (lookedConsole.world.session ⟨0⟩).engine.interpreter.heap.all fun h =>
      ((h.resolveMethod "P" "can").bind h.cell?).any fun x => x.content.opensUndef := by decide +kernel
  rw [hr.engine, Option.all_some, Option.any_eq_true] at hopens
  obtain ⟨x, hx, hopens⟩ := hopens
  obtain ⟨u, hu, hx⟩ := Option.bind_eq_some_iff.1 hx
  refine ⟨h, ha, u, x, ?_⟩
  cases hcontent : x.content with
  | code name body =>
    rw [hcontent] at hopens
    exact ⟨name, hu, hx, by rw [hbodies u x hx name body hcontent hopens]⟩
  | _ =>
    rw [hcontent] at hopens
    cases hopens

theorem dispatch_none (o : ObjectView) (className method : String) (w : World) :
    o.dispatch className method [] w none = .error (unfound method className) := rfl

theorem can_and_calls_looked :
    ((lookedObject.can "f").run lookedConsole.world).1 = .ok (some (.code ⟨⟨0⟩, ⟨6⟩⟩)) ∧
      ((lookedObject.callMethod "g" []).run lookedConsole.world).1 = .error (unfound "g" "P") := by
  obtain ⟨h, ha, hcan⟩ := arrived_looked
  have hfacts : (lookedConsole.world.session ⟨0⟩).engine.interpreter.heap.all fun h =>
      decide ((h.className ⟨12⟩).toOption = some (some "P")) &&
        decide (h.resolveMethod "P" "f" = some ⟨6⟩) && decide ((h.cell? ⟨6⟩).bind Cell.package = none) &&
        decide (h.resolveMethod "P" "g" = none) := by decide +kernel
  rw [ha.runs.engine, Option.all_some] at hfacts
  simp only [Bool.and_eq_true, decide_eq_true_eq] at hfacts
  obtain ⟨⟨⟨hclass, hf⟩, hplain⟩, hg⟩ := hfacts
  have hmem : lookedObject.reference ∈ lookedConsole.handles := by decide +kernel
  have hlooks := can_and_calls (o := lookedObject) (fresh_single _).world ha hmem (eq_ok_of_toOption hclass)
    hcan
  obtain ⟨hcan, -⟩ := hlooks "f"
  obtain ⟨-, hcall⟩ := hlooks "g"
  constructor
  · rw [hcan, hf, canAnswer, hplain]
    rfl
  · rw [hcall [] (List.nil_subset _), if_neg (by decide), hg, dispatch_none]

/-- An object may deny that it has a method that can be called. -/
theorem denied_by_can : ∃ h, Arrived (Console.single looked).world ⟨0⟩ lookedConsole.world
    lookedConsole.handles h ∧ lookedObject.reference ∈ lookedConsole.handles ∧
      h.className lookedObject.reference.cell = .ok (some "P") ∧ h.HasCan "P" ∧
      ((lookedObject.can "P::f").run lookedConsole.world).1 = .ok none ∧
      ∃ results, ((lookedObject.callMethod "P::f" []).run lookedConsole.world).1 = .ok results := by
  obtain ⟨h, ha, hcan⟩ := arrived_looked
  have hclass : (lookedConsole.world.session ⟨0⟩).engine.interpreter.heap.all fun h =>
      decide ((h.className ⟨12⟩).toOption = some (some "P")) := by decide +kernel
  rw [ha.runs.engine, Option.all_some, decide_eq_true_eq] at hclass
  have hdenied : (((lookedObject.can "P::f").run lookedConsole.world).1.toOption.map Option.isSome) =
      some false := by decide +kernel
  have hcalled : ((lookedObject.callMethod "P::f" []).run lookedConsole.world).1.toOption.isSome = true :=
    by decide +kernel
  obtain ⟨answer, hanswer, hnone⟩ := Option.map_eq_some_iff.1 hdenied
  obtain rfl := Option.isNone_iff_eq_none.1 (Option.isSome_eq_false_iff.1 hnone)
  obtain ⟨results, hresults⟩ := Option.isSome_iff_exists.1 hcalled
  exact ⟨h, ha, by decide +kernel, eq_ok_of_toOption hclass, hcan, eq_ok_of_toOption hanswer, results,
    eq_ok_of_toOption hresults⟩

end Embedding
