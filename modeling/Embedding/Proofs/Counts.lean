import Embedding.Proofs.Heap.Requests

/-!
# Exact counts in every run

A run of an interpreter is any sequence of requests. It keeps a ledger of the stakes that the host
holds: an answer adds the stakes in it, and a host gives up only stakes that it holds. The main
statement is that the count of a live cell is at all times the number of places that hold the cell
plus the number of stakes in it.
-/

namespace Embedding

namespace Request

/-- The stakes that the host holds after a request that ended with the result. -/
def settle {s : Shape} (request : Request CellId s) (result : Except Fault (Answer CellId s))
    (stakes : List CellId) : List CellId :=
  match request.released?, result with
  | some c, .ok _ => stakes.erase c
  | some _, .error _ => stakes
  | none, result => resultStakes request.due result ++ stakes

end Request

/-- The runs of an interpreter, each with the stakes that the host holds at its end. The host
releases only what it holds, and the bodies that run end with live cells. -/
inductive Runs (setup : Setup) : Interpreter → List CellId → Prop
  | start : Runs setup ⟨setup, none⟩ []
  | request {i : Interpreter} {stakes : List CellId} {s : Shape} (request : Request CellId s) :
    Runs setup i stakes → (∀ c, request.released? = some c → c ∈ stakes) →
    (∀ h, i.heap = some h → request.EndsLive setup h) →
    Runs setup (i.perform request).2 (request.settle (i.perform request).1 stakes)
  | destruct {i : Interpreter} {stakes : List CellId} :
    Runs setup i stakes → Runs setup i.destruct []

namespace Heap

/-- One request moves the stakes of the host as its ledger says. -/
theorem Sound.answer {setup : Setup} {s : Shape} {request : Request CellId s} {h : Heap}
    {σ : List CellId} (hs : h.Sound σ) (hheld : ∀ c, request.released? = some c → c ∈ σ)
    (hlive : request.EndsLive setup h) :
    ((Heap.answer setup request).run h).2.Sound
      (request.settle ((Heap.answer setup request).run h).1 σ) := by
  cases hr : request.released? with
  | none =>
    obtain ⟨-, leak, hs', htidy⟩ := tracks_answer setup request hr h σ hs
    rw [htidy hlive] at hs'
    simpa [Request.settle, hr] using hs'
  | some c =>
    cases request with
    | release d =>
      cases hr
      have hs := hs.perm (List.perm_cons_erase (hheld c rfl))
      obtain ⟨_, h', hrun, -, hs'⟩ := gives_release h c (σ.erase c) hs
      have hanswer : (Heap.answer setup (.release c)).run h = (.ok (), h') := hrun
      rw [hanswer]
      exact hs'
    | _ => cases hr

end Heap

namespace Interpreter

/-- The heap of a running interpreter is sound for the stakes, and there are none in one that does
not run. -/
def Sound (setup : Setup) : Interpreter → List CellId → Prop
  | ⟨own, some h⟩, stakes => own = setup ∧ h.Sound stakes
  | ⟨own, none⟩, stakes => own = setup ∧ stakes = []

theorem perform_running {s : Shape} (request : Request CellId s) (setup : Setup) (h : Heap) :
    perform request ⟨setup, some h⟩ =
      (((Heap.answer setup request).run h).1, ⟨setup, some ((Heap.answer setup request).run h).2⟩) := rfl

theorem perform_construct (setup : Setup) (args : List String) : ∃ h,
    perform (.construct args) ⟨setup, none⟩ = (.ok (), ⟨setup, some h⟩) ∧ h.Sound [] := by
  obtain ⟨_, h, hrun, -, hs⟩ := Heap.gives_boot .initial setup args [] Heap.sound_initial
  exact ⟨h, by simp only [perform, hrun], hs⟩

theorem Sound.perform {setup : Setup} {i : Interpreter} {stakes : List CellId} {s : Shape}
    {request : Request CellId s} (hs : i.Sound setup stakes)
    (hheld : ∀ c, request.released? = some c → c ∈ stakes)
    (hlive : ∀ h, i.heap = some h → request.EndsLive setup h) :
    (i.perform request).2.Sound setup (request.settle (i.perform request).1 stakes) := by
  obtain ⟨own, heap⟩ := i
  cases heap with
  | some h =>
    obtain ⟨rfl, hs⟩ := hs
    exact ⟨rfl, hs.answer hheld (hlive h rfl)⟩
  | none =>
    obtain ⟨rfl, rfl⟩ := hs
    cases request with
    | construct args =>
      obtain ⟨h, hrun, hs⟩ := perform_construct own args
      rw [hrun]
      exact ⟨rfl, hs⟩
    | release c => cases hheld c rfl
    | _ => exact ⟨rfl, rfl⟩

end Interpreter

theorem Runs.sound {setup : Setup} {i : Interpreter} {stakes : List CellId}
    (hrun : Runs setup i stakes) : i.Sound setup stakes := by
  induction hrun with
  | start => exact ⟨rfl, rfl⟩
  | request request _ hheld hlive ih => exact ih.perform hheld hlive
  | @destruct i _ _ ih =>
    obtain ⟨own, heap⟩ := i
    cases heap <;> exact ⟨ih.1, rfl⟩

theorem Runs.heap_sound {setup : Setup} {i : Interpreter} {stakes : List CellId} {h : Heap}
    (hrun : Runs setup i stakes) (hheap : i.heap = some h) : h.Sound stakes := by
  have hs := hrun.sound
  obtain ⟨own, heap⟩ := i
  obtain rfl : heap = some h := hheap
  exact hs.2

theorem Runs.of_eq {setup : Setup} {i : Interpreter} {stakes stakes' : List CellId}
    (hrun : Runs setup i stakes) (hstakes : stakes = stakes') : Runs setup i stakes' := hstakes ▸ hrun

/-- At every point of a run the count of a live cell is the number of places that hold it plus the
number of stakes that the host has in it, and there is at least one. Whatever is held is live. -/
theorem refcount_eq_holders {setup : Setup} {i : Interpreter} {stakes : List CellId} {h : Heap}
    (hrun : Runs setup i stakes) (hheap : i.heap = some h) :
    (∀ c, h.isLive c →
      h.refcount c = .ok (h.places.count c + stakes.count c) ∧
        1 ≤ h.places.count c + stakes.count c) ∧
      ∀ c, c ∈ h.places ∨ c ∈ stakes → h.isLive c := by
  have hs := hrun.sound
  obtain ⟨own, heap⟩ := i
  obtain rfl : heap = some h := hheap
  refine ⟨fun c hc => ?_, fun c hc => hs.2.exact.held c (List.mem_append.2 hc)⟩
  obtain ⟨x, hx⟩ := Heap.exists_cell hc
  obtain ⟨hcount, hone⟩ := hs.2.exact.counts c x hx
  rw [List.count_append] at hcount
  rw [hcount] at hone
  exact ⟨by rw [Heap.refcount, Heap.cell_ok hx, ← hcount]; rfl, hone⟩

/-- A package with a sub that catches the death of another one and keeps its arguments. -/
def keeping : Setup :=
  Setup.preload {} {
    name := "Acc"
    subs := [
      ("fail", fun call => .die (call.args.headD ⟨0⟩)),
      ("keep", fun call => do
        let _ ← Proc.attempt (.call (.named "Acc::fail") call.args)
        return [← Proc.perform (.newArray call.args)])] }

def keepingNumber : Interpreter :=
  (((⟨keeping, none⟩ : Interpreter).perform (.construct [])).2.perform (.newInt 7)).2

def keepingCall : Request CellId .cells := .call (.named "Acc::keep") [⟨7⟩] .scalar

def keepingEnd : Interpreter := (keepingNumber.perform keepingCall).2

theorem refcount_eq_holders_keeping : ∃ h, Runs keeping keepingEnd [⟨14⟩, ⟨7⟩] ∧
    keepingEnd.heap = some h ∧ h.refcount ⟨7⟩ = .ok (h.places.count ⟨7⟩ + 1) := by
  obtain ⟨h, hh⟩ : ∃ h, keepingEnd.heap = some h := Option.isSome_iff_exists.1 (by decide +kernel)
  have hbooted := (Runs.start : Runs keeping _ _).request (.construct []) nofun fun _ _ => trivial
  have hnumber : Runs keeping keepingNumber [⟨7⟩] :=
    (hbooted.request (.newInt 7) nofun fun _ _ => trivial).of_eq (by decide +kernel)
  have hlive : ∀ h, keepingNumber.heap = some h → keepingCall.EndsLive keeping h := by
    rintro h ⟨⟩
    change Heap.CallEndsLive ..
    decide +kernel
  have hend : Runs keeping keepingEnd [⟨14⟩, ⟨7⟩] :=
    (hnumber.request keepingCall nofun hlive).of_eq (by decide +kernel)
  obtain ⟨hcounts, hheld⟩ := refcount_eq_holders hend hh
  exact ⟨h, hend, hh, (hcounts ⟨7⟩ (hheld ⟨7⟩ (.inr (by decide)))).1⟩

end Embedding
