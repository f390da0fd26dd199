import Embedding.Proofs.Console.Runs
import Embedding.Proofs.Host.Balance
import Embedding.Proofs.Tidy

/-!
# Handles are the stakes of the host

A host that works through sessions names only cells that it has handles in. So the runs of its
interpreters are runs in which every request names held cells only, and the counts are exact for the
handles.
-/

namespace Embedding

open Console

variable {setup : Setup} {h h₁ : Heap} {σ : List CellId}

/-- A heap that such a run can lead to, with the stakes that the host has then. -/
def Held (setup : Setup) (h : Heap) (σ : List CellId) : Prop :=
  ∃ τ, HeldRuns setup ⟨setup, some h⟩ τ ∧ τ.Perm σ

theorem Held.sound (htidy : setup.Tidy) (hheld : Held setup h σ) : h.Sound σ := by
  obtain ⟨τ, hrun, hp⟩ := hheld
  exact (hrun.runs htidy).sound.2.perm hp

theorem Held.request (hheld : Held setup h σ) {s : Shape} (request : Request CellId s)
    (hcells : request.cells ⊆ σ) {r : Except Fault (Answer CellId s)}
    (hrun : (Heap.answer setup request).run h = (r, h₁)) :
    ∃ τ, HeldRuns setup ⟨setup, some h₁⟩ (request.settle r τ) ∧ τ.Perm σ := by
  obtain ⟨τ, hheld, hp⟩ := hheld
  have hnext := hheld.request request fun c hc => hp.mem_iff.2 (hcells hc)
  have hperform : (⟨setup, some h⟩ : Interpreter).perform request = (r, ⟨setup, some h₁⟩) := by
    simp only [Interpreter.perform, hrun]
  rw [hperform] at hnext
  exact ⟨τ, hnext, hp⟩

theorem settle_of_isPlain {s : Shape} {request : Request CellId s} (hplain : request.isPlain = true)
    (r : Except Fault (Answer CellId s)) (stakes : List CellId) :
    request.settle r stakes = resultStakes Answer.stakes r ++ stakes := by
  cases request <;> first | rfl | cases hplain

theorem Held.answer (hheld : Held setup h σ) {s : Shape} (request : Request CellId s)
    (hplain : request.isPlain = true) (hcells : request.cells ⊆ σ)
    {r : Except Fault (Answer CellId s)} (hrun : (Heap.answer setup request).run h = (r, h₁)) :
    Held setup h₁ (resultStakes Answer.stakes r ++ σ) := by
  obtain ⟨τ, hnext, hp⟩ := hheld.request request hcells hrun
  rw [settle_of_isPlain hplain] at hnext
  exact ⟨_, hnext, hp.append_left _⟩

theorem discipline_held {origin : Session} (htidy : origin.engine.interpreter.setup.Tidy) :
    Discipline origin (Held origin.engine.interpreter.setup) where
  perm := fun ⟨τ, hrun, hp⟩ hp' => ⟨τ, hrun, hp.trans hp'⟩
  boot {h} hboot := by
    have hidle : HeldRuns origin.engine.interpreter.setup _ [] := .start
    have hstart := hidle.request (.construct origin.config.interpreterArgs) (List.nil_subset _)
    have hperform : (⟨origin.engine.interpreter.setup, none⟩ : Interpreter).perform
        (.construct origin.config.interpreterArgs) =
          (.ok (), ⟨origin.engine.interpreter.setup, some h⟩) := by
      simp only [Interpreter.perform, hboot]
    rw [hperform] at hstart
    exact ⟨_, hstart, .refl _⟩
  cross request _ hheld hplain hcells hrun := by
    have hheld := hheld.answer request hplain hcells hrun
    obtain ⟨o, h₂, htake, -, -⟩ := Heap.gives_takeError _ _ (hheld.sound htidy)
    exact ⟨o, h₂, htake, hheld.answer .takeError rfl (List.nil_subset _) htake⟩
  retain {h σ c} hheld hc := by
    obtain ⟨_, h₁, hrun, -, -⟩ :=
      Heap.gives_retain ((hheld.sound htidy).isLive hc) σ (hheld.sound htidy)
    obtain ⟨τ, hnext, hp⟩ := hheld.request (.retain c) (by simpa [Request.cells] using hc) hrun
    rw [hrun]
    exact ⟨_, hnext, hp.cons c⟩
  release {h σ c} hheld := by
    obtain ⟨_, h₁, hrun, -, -⟩ := Heap.gives_release h c σ (hheld.sound htidy)
    obtain ⟨τ, hnext, hp⟩ := hheld.request (.release c) (by simp [Request.cells]) hrun
    rw [hrun]
    refine ⟨_, hnext, ?_⟩
    simpa [Request.settle, Request.released?] using hp.erase c

/-- After any lines that a console carried out, each session counts the handles that the registers
own. While a session runs, the count of a live cell is the number of places that hold the cell plus
the number of those handles that are in it. -/
theorem refcount_eq_handles {c : Console} (hfresh : c.Fresh)
    (htidy : ∀ s, (c.world.session s).engine.interpreter.setup.Tidy) {lines : List Line}
    (hkeep : ∀ line ∈ lines, line.command.keepsHandles = true) (s : SessionId) :
    let c' := (run lines c).2
    (c'.world.session s).liveHandles = c'.handles.countP (fun h => h.session = s) ∧
      ((c'.world.session s).stage = .initialized →
        ∃ h, (c'.world.session s).engine.interpreter.heap = some h ∧
          ∀ cell, h.isLive cell →
            h.refcount cell = .ok (h.places.count cell + c'.handles.count ⟨s, cell⟩)) := by
  intro c'
  have hend : Balanced c.world (fun s => Held (c.world.session s).engine.interpreter.setup) c'.world
      c'.handles := (books_balanced fun s => discipline_held (htidy s)).run_ends
    (fun line hline => .inl (hkeep line hline)) hfresh.fixable
    (hfresh.handles ▸ hfresh.world.balanced)
  refine ⟨?_, fun hstage => ?_⟩
  · rw [(hend s).count, cellsOf, List.length_map, List.countP_eq_length_filter]
  · obtain ⟨h, hheap, hheld⟩ := (hend s).running hstage
    refine ⟨h, hheap, fun cell hcell => ?_⟩
    obtain ⟨x, hx⟩ := Heap.exists_cell hcell
    have hcount := ((hheld.sound (htidy s)).exact.counts cell x hx).1
    rw [List.count_append, count_cellsOf] at hcount
    rw [Heap.refcount, Heap.cell_ok hx, ← hcount]
    rfl

/-- A package with a sub that makes a number and one that fails. -/
def counting : Package where
  name := "Acc"
  subs := [
    ("make", fun _ => do return [← Proc.perform (.newInt 7)]),
    ("fail", fun _ => Proc.fail "no")]

def countingConsole : Console := .single (Setup.provide {} counting)

/-- A nested list is copied in, the package is loaded, a number is made, and a call fails. -/
def countingLines : List Line := [
  { command := .session ⟨0⟩ .start },
  { command := .session ⟨0⟩ (.newArray [.int 1, .list [.int 2]]), into := some "a" },
  { command := .session ⟨0⟩ (.load "Acc"), into := some "p" },
  { command := .package "p" (.function "make"), into := some "f" },
  { command := .callable "f" (.call [.register "a"] none), into := some "r" },
  { command := .session ⟨0⟩ (.call "Acc::fail" [.register "a"]), errorInto := some "e" },
  { command := .copy "a", into := some "b" },
  { command := .drop "a" }]

theorem allBodies_counting : (Setup.provide {} counting).AllBodies NativeSub.EndsLive where
  isa := Universal.endsLive_isa
  can := Universal.endsLive_can
  subs name p hp sub hsub := by
    have hp := Heap.mem_values_of_get? hp
    obtain rfl : p = counting := List.mem_singleton.1 hp
    obtain rfl | rfl : sub = _ ∨ sub = _ := by simpa [counting] using hsub
    · exact fun _ _ => Proc.endsLive_create rfl
    · exact fun _ _ => Proc.endsLive_fail "no"
  evaluator := nofun

theorem allBodies_none : ({} : Setup).AllBodies NativeSub.EndsLive where
  isa := Universal.endsLive_isa
  can := Universal.endsLive_can
  subs _ _ hp := by cases hp
  evaluator _ he := by cases he

theorem refcount_eq_handles_counting :
    let c' := (run countingLines countingConsole).2
    (c'.world.session ⟨0⟩).liveHandles = c'.handles.countP (fun h => h.session = ⟨0⟩) ∧
      ∃ h, (c'.world.session ⟨0⟩).engine.interpreter.heap = some h ∧
        ∀ cell, h.isLive cell →
          h.refcount cell = .ok (h.places.count cell + c'.handles.count ⟨⟨0⟩, cell⟩) := by
  have hfresh : countingConsole.Fresh := fresh_single _
  have htidy : ∀ s, (countingConsole.world.session s).engine.interpreter.setup.Tidy := by
    intro s
    rcases session_single (Setup.provide {} counting) s with hs | hs <;> rw [countingConsole, hs]
    · exact allBodies_counting.tidy
    · exact allBodies_none.tidy
  have hkeep : ∀ line ∈ countingLines, line.command.keepsHandles = true := by decide
  have hstage : ((run countingLines countingConsole).2.world.session ⟨0⟩).stage = .initialized := by
    decide +kernel
  obtain ⟨hcount, hrunning⟩ := refcount_eq_handles hfresh htidy hkeep ⟨0⟩
  exact ⟨hcount, hrunning hstage⟩

end Embedding
