import Embedding.Proofs.Counts
import Embedding.Proofs.Heap.Results

/-!
# Results of calls

The main statement is what a caller gets from a body that returns, at any depth: one new cell for every
value that the context asks for, with what the value was when the body ended, and nothing that it would have
to share.
-/

namespace Embedding

namespace Heap

/-- The code runs a body in the heap and in the context, where calls of it may nest `depth` levels deep. -/
inductive Enters (h : Heap) : HeapM (List CellId) → (depth : Nat) → Proc (List CellId) → Context → Prop
  | call {target : Target CellId} {args : List CellId} {context : Context} {body : Proc (List CellId)}
    (depth : Nat) : callee? target args context h = some (body, h) →
    Enters h (callWithin (depth + 1) target args context) depth body context
  | eval (evaluator : Evaluator) (source : String) (context : Context) :
    Enters h (eval evaluator source context) maxDepth (evaluator source ⟨"(eval)", [], context⟩) context

/-- A result for the value `c` of a body that ended in `base`. Its number was not given out before, no variable,
container or reference holds it, and it has a count of its own. It has the value that `c` had, or refers to `c`
if that is no scalar, and what it refers to is there. -/
structure ResultOf (base h : Heap) (d c : CellId) : Prop where
  fresh : base.cells.size ≤ d.index
  unheld : d ∉ h.places
  value : ∃ x, base.cell? c = some x ∧ h.cell? d = some ⟨1, none, .scalar (contentValue c x.content)⟩ ∧
    ∀ t ∈ (contentValue c x.content).ref, h.isLive t

variable {h : Heap} {σ values : List CellId} {x : HeapM (List CellId)} {depth : Nat}
  {body : Proc (List CellId)} {context : Context} {f : Frame}

theorem Enters.run (henters : Enters h x depth body context) :
    x.run h = (invoke (fun target args => callWithin depth target args .list) body context).run h := by
  cases henters with
  | call _ hcallee => exact run_callWithin hcallee
  | eval => rfl

theorem Copies.resultOf {base h : Heap} {ds : List CellId} {c d : CellId} (hd : Copies base h ds σ)
    (hm : d ∈ ds) (hshows : h.Shows base d c) : ResultOf base h d c := by
  obtain ⟨x, n, hx, hcell⟩ := hshows
  obtain rfl : n = 1 := hd.refcount hm hcell
  refine ⟨hd.fresh d hm, hd.unheld hm, x, hx, hcell, fun t ht => ?_⟩
  exact hd.sound.isLive_child hcell (Option.mem_toList.2 ht)

/-- A body that returns live cells: the results are copies of the values that the context asks for, in order
and all different, and no other cell is left of those that were made after the body had ended. -/
theorem call_results (hs : h.Sound σ) (henters : Enters h x depth body context)
    (hbody : (body.run fun target args => callWithin depth target args .list).run (startFrame h) =
      (.ok values, f))
    (hlive : ∀ c ∈ values, f.heap.isLive c) :
    h.cells.size ≤ f.heap.cells.size ∧ ∃ results h', x.run h = (.ok results, h') ∧
      List.Forall₂ (ResultOf f.heap h') results (context.wanted values) ∧ results.Nodup ∧
      ∀ c, h'.isLive c → f.heap.cells.size ≤ c.index → c ∈ results := by
  have hcall := fun target args h => loses_callWithin depth target args .list h
  obtain ⟨results, h', hrun, hev, hall, hd⟩ := hs.run_invoke hcall hbody hlive context
  refine ⟨hev.size, results, h', henters.run.trans hrun, ?_, hd.nodup, fun c => hd.mem⟩
  refine ((List.forall₂_and_left _ _).2 ⟨fun d hm => hm, hall⟩).imp ?_
  rintro d c ⟨hm, hshows⟩
  exact hd.resultOf hm hshows

end Heap

/-- A sub that returns a reference to an array that only the reference holds, and its first argument twice. -/
def doubled : NativeSub := fun call => do
  let number ← Proc.perform (.newInt 5)
  let array ← Proc.perform (.newArray [number])
  return array :: (call.args ++ call.args)

def doubling : Setup := Setup.preload {} { name := "P", subs := [("f", doubled)] }

def doublingStart : Interpreter :=
  (((⟨doubling, none⟩ : Interpreter).perform (.construct [])).2.perform (.newInt 7)).2

theorem call_results_doubling : ∃ h results h', doublingStart.heap = some h ∧
    (Heap.answer doubling (.call (.named "P::f") [⟨6⟩] .list)).run h = (.ok results, h') ∧
    results.length = 3 ∧ results.Nodup ∧ ∀ d ∈ results, d ∉ h'.places ∧ ¬ h.isLive d := by
  have hbooted := (Runs.start : Runs doubling _ _).request (.construct []) nofun fun _ _ => trivial
  have hnumber : Runs doubling doublingStart _ := hbooted.request (.newInt 7) nofun fun _ _ => trivial
  obtain ⟨h, hh⟩ : ∃ h, doublingStart.heap = some h := Option.isSome_iff_exists.1 (by decide +kernel)
  have hcall : doublingStart.heap.all fun h =>
      (Heap.callee? (.named "P::f") [⟨6⟩] .list h).any fun p =>
        let ended := (p.1.run fun target args => Heap.callWithin 99999 target args .list).run (Heap.startFrame h)
        ended.1.toOption.any fun values =>
          values.all (fun c => (ended.2.heap.cell? c).isSome) && values.length == 3 := by decide +kernel
  rw [hh, Option.all_some, Option.any_eq_true] at hcall
  obtain ⟨⟨body, h₁⟩, hcallee, hcall⟩ := hcall
  obtain rfl := Heap.callee?_eq_some hcallee
  obtain ⟨values, hvalues, hcall⟩ := (Option.any_eq_true _ _).1 hcall
  obtain ⟨f, hbody⟩ := exists_run_of_toOption hvalues
  dsimp only at hbody hcall
  rw [hbody] at hcall
  simp only [Bool.and_eq_true, List.all_eq_true, beq_iff_eq] at hcall
  obtain ⟨hlive, hlength⟩ := hcall
  obtain ⟨hsize, results, h', hrun, hall, hnodup, -⟩ :=
    Heap.call_results (hnumber.heap_sound hh) (.call 99999 hcallee) hbody hlive
  have hanswer : (Heap.answer doubling (.call (.named "P::f") [⟨6⟩] .list)).run h₁ = (.ok results, h') := by
    change (Heap.callWithin Heap.maxDepth _ _ _).run h₁ = _
    rw [show Heap.maxDepth = 99999 + 1 from rfl, hrun]
  refine ⟨h₁, results, h', hh, hanswer, hall.length_eq.trans hlength, hnodup, ?_⟩
  refine ((List.forall₂_and_left _ _).1 (hall.imp fun d c hresult => ⟨?_, hresult⟩)).1
  exact ⟨hresult.unheld, Heap.not_isLive_of_size_le (Nat.le_trans hsize hresult.fresh)⟩

end Embedding
