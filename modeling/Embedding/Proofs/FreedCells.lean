import Embedding.Proofs.Counts
import Embedding.Proofs.Heap.Gone

/-!
# Freed cells

A host may give back more counts than it has, and so leave containers with items that are gone. The main
statement is what holds all the same between a start and the end of it: no count is ever below one, the
cascades of releases find what they take, a cell that was freed is gone for good, and whoever works on it is
told.
-/

namespace Embedding

/-- In every course of requests and of what the bodies do that run for them, every live cell has a count, a
release takes no count from a cell that has none, and a cell that is gone stays gone. A request that works on
a cell that is not there is refused with its number and leaves everything as it was. -/
theorem freed_cells {setup : Setup} {args : List String} {h₀ h h' : Heap}
    (hstart : Interpreter.perform (.construct args) ⟨setup, none⟩ = (.ok (), ⟨setup, some h₀⟩))
    (hlead : Heap.Leads setup h₀ h) (hlater : Heap.Leads setup h h') :
    (∀ c, h.isLive c → ∃ n, h.refcount c = .ok n ∧ 1 ≤ n) ∧
      (∀ c, h.drop? h.cells.size c = some (h.drop h.cells.size c)) ∧
      (∀ c, h.isLive c → h'.isLive c ∨ h'.Gone c) ∧
      (∀ c, h.Gone c → h'.Gone c) ∧
      ∀ {s : Shape} (request : Request CellId s) (c : CellId), request.WorksOn h c → ¬ h.isLive c →
        Interpreter.perform request ⟨setup, some h⟩ = (.error (.freed c), ⟨setup, some h⟩) := by
  have hbooted : h₀.Counted := by
    have hboot := Heap.stable_counted.boot (allBodies_true setup) args _ Heap.counted_initial
    simp only [Interpreter.perform] at hstart
    split at hstart
    · next hrun =>
      rw [hrun] at hboot
      obtain ⟨⟩ := hstart
      exact hboot
    · cases hstart
  have hcounted := Heap.stable_counted.leads hlead hbooted
  refine ⟨fun c hc => ?_, hcounted.drop?_eq, fun c => hlater.evolves.isLive_or_gone,
    fun c => hlater.evolves.gone, fun request c hworks hc => ?_⟩
  · obtain ⟨x, hx⟩ := Heap.exists_cell hc
    exact ⟨x.refcount, by rw [Heap.refcount, Heap.cell_ok hx]; rfl, hcounted c x hx⟩
  · simp only [Interpreter.perform, Heap.run_answer_freed hc setup hworks]

def Heap.served (setup : Setup) (requests : List (Σ s, Request CellId s)) (h : Heap) : Heap :=
  requests.foldl (fun h request => ((answer setup request.2).run h).2) h

theorem Heap.leads_served (setup : Setup) (requests : List (Σ s, Request CellId s)) (h : Heap) :
    Leads setup h (h.served setup requests) := by
  induction requests generalizing h with
  | nil => exact .refl
  | cons request requests ih => exact (ih _).head (.answer request.2 h)

def emptyHeap : Heap := ((Heap.boot {} []).run .initial).2

/-- An item is fetched once and released twice, while the array has it. -/
def danglingHeap : Heap := emptyHeap.served {} [⟨_, .newArray⟩, ⟨_, .newInt 7⟩,
  ⟨_, .arrayStore ⟨5⟩ 0 ⟨6⟩⟩, ⟨_, .arrayFetch ⟨5⟩ 0⟩, ⟨_, .release ⟨7⟩⟩, ⟨_, .release ⟨7⟩⟩]

/-- The array is released with what it has left. -/
def releasedHeap : Heap := danglingHeap.served {} [⟨_, .release ⟨5⟩⟩, ⟨_, .newArray⟩]

theorem freed_cells_dangling :
    danglingHeap.Gone ⟨7⟩ ∧ danglingHeap.items ⟨5⟩ = .ok #[⟨7⟩] ∧ releasedHeap.Gone ⟨7⟩ ∧
      Interpreter.perform (.assign ⟨6⟩ ⟨7⟩) ⟨{}, some danglingHeap⟩ =
        (.error (.freed ⟨7⟩), ⟨{}, some danglingHeap⟩) := by
  have hstart : Interpreter.perform (.construct []) ⟨{}, none⟩ = (.ok (), ⟨{}, some emptyHeap⟩) := rfl
  have hgone : danglingHeap.Gone ⟨7⟩ := ⟨by decide +kernel, by decide +kernel⟩
  obtain ⟨-, -, -, hstays, hrefused⟩ := freed_cells hstart (Heap.leads_served {} _ emptyHeap)
    (Heap.leads_served {} [⟨_, .release ⟨5⟩⟩, ⟨_, .newArray⟩] danglingHeap)
  refine ⟨hgone, by decide +kernel, hstays _ hgone, hrefused (.assign ⟨6⟩ ⟨7⟩) ⟨7⟩ (.inr ⟨rfl, ?_⟩) hgone.2⟩
  exact ⟨_, rfl, rfl⟩

end Embedding
