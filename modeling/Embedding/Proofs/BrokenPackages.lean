import Embedding.Proofs.Counts
import Embedding.Proofs.Heap.Gone
import Embedding.Proofs.Heap.Loads

/-!
# Packages that do not compile

A package can be marked as one that does not compile. The main statement is that requiring it fails with what
is wrong with it, every time, and that nothing comes of what else it defines; a package that was required is
not brought in again. It is about packages that are not there from the start: those are brought in
without a look at the mark.
-/

namespace Embedding

/-- The runs of an interpreter, each with the stakes that the host holds at its end. The host releases only
what it holds; bodies may end as they like. -/
inductive HostRuns (setup : Setup) : Interpreter → List CellId → Prop
  | start : HostRuns setup ⟨setup, none⟩ []
  | request {i : Interpreter} {stakes : List CellId} {s : Shape} (request : Request CellId s) :
    HostRuns setup i stakes → (∀ c, request.released? = some c → c ∈ stakes) →
    HostRuns setup (i.perform request).2 (request.settle (i.perform request).1 stakes)
  | destruct {i : Interpreter} {stakes : List CellId} :
    HostRuns setup i stakes → HostRuns setup i.destruct []

variable {setup : Setup} {i : Interpreter} {stakes : List CellId} {h : Heap}

/-- One request moves the stakes of the host as its ledger says; calls may lose count of cells. -/
theorem Heap.Sound.answer_losing {s : Shape} {request : Request CellId s} {σ leak : List CellId}
    (hs : h.Sound (σ ++ leak)) (hheld : ∀ c, request.released? = some c → c ∈ σ) :
    ∃ leak, ((Heap.answer setup request).run h).2.Sound
      (request.settle ((Heap.answer setup request).run h).1 σ ++ leak) := by
  cases hr : request.released? with
  | none =>
    obtain ⟨-, more, hs', -⟩ := tracks_answer setup request hr h _ hs
    refine ⟨more ++ leak, hs'.perm (List.perm_iff_count.2 fun c => ?_)⟩
    simp only [Request.settle, hr, List.count_append]
    omega
  | some c =>
    have hlive : request.EndsLive setup h := by cases request <;> trivial
    have hs' := hs.answer (fun c hc => List.mem_append_left leak (hheld c hc)) hlive
    refine ⟨leak, ?_⟩
    unfold Request.settle at hs' ⊢
    rw [hr] at hs' ⊢
    cases hanswer : ((Heap.answer setup request).run h).1 with
    | ok _ =>
      rw [hanswer] at hs'
      rwa [← List.erase_append_left _ (hheld c hr)]
    | error _ => rwa [hanswer] at hs'

theorem HostRuns.sound (hrun : HostRuns setup i stakes) : i.setup = setup ∧
    (∀ h, i.heap = some h → ∃ leak, h.Sound (stakes ++ leak)) ∧ (i.heap = none → stakes = []) := by
  induction hrun with
  | start => exact ⟨rfl, nofun, fun _ => rfl⟩
  | destruct _ ih =>
    obtain ⟨hsetup, -, -⟩ := ih
    exact ⟨hsetup, nofun, fun _ => rfl⟩
  | @request i σ s request _ hheld ih =>
    obtain ⟨own, heap⟩ := i
    obtain ⟨rfl, hsome, hnone⟩ := ih
    cases heap with
    | some h =>
      obtain ⟨leak, hs⟩ := hsome h rfl
      refine ⟨rfl, ?_, nofun⟩
      rintro _ ⟨⟩
      exact hs.answer_losing hheld
    | none =>
      obtain rfl := hnone rfl
      cases request with
      | construct args =>
        obtain ⟨h, hrun, hs⟩ := Interpreter.perform_construct own args
        rw [hrun]
        refine ⟨rfl, ?_, nofun⟩
        rintro _ ⟨⟩
        exact ⟨[], hs⟩
      | release c => cases hheld c rfl
      | _ => exact ⟨rfl, nofun, fun _ => rfl⟩

theorem HostRuns.loadedFrom (hbuilt : setup.Built) (hrun : HostRuns setup i stakes) :
    ∀ h, i.heap = some h → Heap.LoadedFrom setup h := by
  induction hrun with
  | start => exact nofun
  | destruct => exact nofun
  | @request i σ s request hrun _ ih =>
    obtain ⟨own, heap⟩ := i
    obtain ⟨rfl, -, -⟩ := hrun.sound
    cases heap with
    | some h =>
      rintro _ ⟨⟩
      exact (ih h rfl).answer hbuilt request
    | none =>
      cases request with
      | construct args =>
        intro h hh
        have hboot := Heap.loadedFrom_boot hbuilt args
        simp only [Interpreter.perform] at hh
        split at hh
        · next hrun =>
          cases hh
          rwa [hrun] at hboot
        · cases hh
      | _ =>
        intro h hh
        cases hh

/-- What else the definition of a package says that does not compile makes no difference. -/
theorem Interpreter.perform_provide {p q : Package} (hq : setup.provided.get? q.name = some p)
    (hsame : q.compileError = p.compileError) (hbroken : p.compileError.isSome)
    (hstart : q.name ∉ setup.preloaded) {s : Shape} (request : Request CellId s) (heap : Option Heap) :
    Interpreter.perform request ⟨setup.provide q, heap⟩ =
      ((Interpreter.perform request ⟨setup, heap⟩).1,
        ⟨setup.provide q, (Interpreter.perform request ⟨setup, heap⟩).2.heap⟩) := by
  cases heap with
  | some h =>
    rw [Interpreter.perform_running, Interpreter.perform_running, Heap.answer_provide hq hsame hbroken]
  | none =>
    cases request with
    | construct args =>
      simp only [Interpreter.perform, Heap.boot_provide hstart]
      split <;> rfl
    | _ => rfl

/-- A package that does not compile and is not there from the start is never loaded. Whoever requires it is
told what is wrong, in a cell of its own and in the variable for the pending error, and all else stays as it
was. The interpreter would do the same, whatever the definition says besides. A package that was required
is there, so to require it again does nothing. -/
theorem broken_packages (hbuilt : setup.Built) (hrun : HostRuns setup i stakes) (hheap : i.heap = some h) :
    (∀ (p : Package) (diagnostic : String), setup.provided.get? p.name = some p →
      p.compileError = some diagnostic → p.name ∉ setup.preloaded →
      h.isLoaded p.name = false ∧
      (∃ v e h', i.perform (.require p.name) = (.error (.died v), ⟨setup, some h'⟩) ∧
        h.errorCell = .ok e ∧ v ≠ e ∧
        h'.scalar v = .ok (.ofText s!"{diagnostic}\nCompilation failed in require") ∧
        h'.scalar e = .ok (.ofText s!"{diagnostic}\nCompilation failed in require") ∧
        h.Firm (Heap.Besides e) h' ∧ h'.loaded = h.loaded) ∧
      ∀ q : Package, q.name = p.name → q.compileError = p.compileError →
        ∀ {s : Shape} (request : Request CellId s) (heap : Option Heap),
          Interpreter.perform request ⟨setup.provide q, heap⟩ =
            ((Interpreter.perform request ⟨setup, heap⟩).1,
              ⟨setup.provide q, (Interpreter.perform request ⟨setup, heap⟩).2.heap⟩)) ∧
    ∀ (package : String) (k k' : Heap), i.perform (.require package) = (.ok (), ⟨setup, some k⟩) →
      k.Leads setup k' →
      Interpreter.perform (.require package) ⟨setup, some k'⟩ = (.ok (), ⟨setup, some k'⟩) := by
  obtain ⟨own, heap⟩ := i
  obtain rfl : heap = some h := hheap
  obtain rfl : setup = own := hrun.sound.1.symm
  obtain ⟨leak, hs⟩ := hrun.sound.2.1 h rfl
  refine ⟨fun p diagnostic hp herror hstart => ?_, fun package k k' hrequired hlead => ?_⟩
  · have hloaded := (hrun.loadedFrom hbuilt h rfl).not_loaded hp herror hstart
    refine ⟨hloaded, ?_, ?_⟩
    · obtain ⟨e, -, he, -⟩ := hs.errorCell
      obtain ⟨v, h', hrequire, hrest⟩ := hs.run_require_broken he hp herror hloaded
      refine ⟨v, e, h', ?_, he, hrest⟩
      rw [Interpreter.perform_running, Heap.answer, hrequire]
    · intro q hname hsame s request heap
      exact Interpreter.perform_provide (hname ▸ hp) hsame (by rw [herror]; rfl) (hname ▸ hstart) request heap
  · have hloads : package ∈ k.loaded := by
      rw [Interpreter.perform_running, Prod.mk.injEq, Interpreter.mk.injEq, Option.some.injEq] at hrequired
      exact Heap.require_loads hbuilt (Prod.ext hrequired.1 hrequired.2.2)
    have hlater := (Heap.stable_isLoaded package).leads hlead hloads
    rw [Interpreter.perform_running, Heap.answer, Heap.run_require_loaded hlater]

/-- A package with a sub that does not compile. -/
def unfinished : Package :=
  { name := "P", subs := [("f", fun _ => return [])], compileError := some "syntax error" }

def offering : Setup := (Setup.provide {} unfinished).preload { name := "Q" }

def offeringStart : Interpreter := ((⟨offering, none⟩ : Interpreter).perform (.construct [])).2

theorem broken_packages_offered : ∃ h v h', offeringStart.heap = some h ∧ h.isLoaded "P" = false ∧
    offeringStart.perform (.require "P") = (.error (.died v), ⟨offering, some h'⟩) ∧
    h'.scalar v = .ok (.ofText "syntax error\nCompilation failed in require") ∧
    Interpreter.perform (.require "Q") ⟨offering, some h'⟩ = (.ok (), ⟨offering, some h'⟩) := by
  obtain ⟨h, hh⟩ : ∃ h, offeringStart.heap = some h := Option.isSome_iff_exists.1 (by decide +kernel)
  have hbuilt : offering.Built := .preload _ (.provide _ .new)
  have hrun : HostRuns offering offeringStart _ := .request (.construct []) .start nofun
  obtain ⟨hbroken, hagain⟩ := broken_packages hbuilt hrun hh
  obtain ⟨hloaded, ⟨v, e, h', hrequire, -, -, hv, -⟩, -⟩ :=
    hbroken unfinished "syntax error" rfl rfl (by decide)
  have hstart : offeringStart = ⟨offering, some h⟩ := by rw [← hh]; rfl
  have hq : "Q" ∈ h.loaded := by
    have hmem : offeringStart.heap.all fun h => decide ("Q" ∈ h.loaded) := by decide +kernel
    simpa [hh] using hmem
  have hpresent : offeringStart.perform (.require "Q") = (.ok (), ⟨offering, some h⟩) := by
    rw [hstart, Interpreter.perform_running, Heap.answer, Heap.run_require_loaded hq]
  have hlead : h.Leads offering h' := by
    rw [hstart, Interpreter.perform_running, Prod.mk.injEq, Interpreter.mk.injEq, Option.some.injEq] at hrequire
    rw [← hrequire.2.2]
    exact .single (.answer (.require "P") h)
  exact ⟨h, v, h', hh, hloaded, hrequire, hv, hagain "Q" h h' hpresent hlead⟩

/-! ## Packages that are there from the start -/

def hasty : Setup := Setup.preload {} unfinished

/-- A package that does not compile is brought in all the same if it is there from the start. -/
theorem loaded_though_broken : hasty.Built ∧ hasty.provided.get? "P" = some unfinished ∧
    ∃ h, (Interpreter.perform (.construct []) ⟨hasty, none⟩).2.heap = some h ∧ h.isLoaded "P" = true ∧
      (h.symbol? .code "P::f").isSome ∧
      (Interpreter.perform (.require "P") ⟨hasty, some h⟩).1 = .ok () := by
  refine ⟨.preload _ .new, rfl, ?_⟩
  obtain ⟨h, hh⟩ : ∃ h, (Interpreter.perform (.construct []) ⟨hasty, none⟩).2.heap = some h :=
    Option.isSome_iff_exists.1 (by decide +kernel)
  have hall : (Interpreter.perform (.construct []) ⟨hasty, none⟩).2.heap.all fun h =>
      decide ("P" ∈ h.loaded) && (h.symbol? .code "P::f").isSome := by decide +kernel
  rw [hh, Option.all_some, Bool.and_eq_true, decide_eq_true_eq] at hall
  obtain ⟨hloaded, hsub⟩ := hall
  refine ⟨h, hh, by simpa [Heap.isLoaded] using hloaded, hsub, ?_⟩
  rw [Interpreter.perform_running, Heap.answer, Heap.run_require_loaded hloaded]

end Embedding
