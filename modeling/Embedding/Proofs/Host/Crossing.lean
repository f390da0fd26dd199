import Embedding.Host.Boundary
import Embedding.Proofs.Host.Worlds

/-!
# What a crossing does

A crossing asks twice: it makes its request, and then it takes the pending error. How it ends is
decided by the two outcomes.
-/

namespace Embedding

variable {read : Handle → HostM Value} {s : SessionId} {operation : String} {shape : Shape}
  {request : Request Handle shape} {w w' : World}

/-! ## The two questions -/

/-- The handle of the error that was found pending, if one was. -/
def pendingHandles (pending : Except Fault (Option Handle)) : List Handle :=
  HostM.stakesOf (show Except Fault (Answer Handle .cellIfAny) from pending)

def diedHandles (s : SessionId) : Except Fault (Answer Handle shape) → List Handle
  | .error (.died value) => [⟨s, value⟩]
  | _ => []

/-- Makes a request, and takes the error that is pending afterwards. -/
def exchange (s : SessionId) (request : Request Handle shape) :
    HostM (Except Fault (Answer Handle shape) × Except Fault (Option Handle)) := do
  let outcome ← HostM.ask s request
  let pending ← HostM.ask s .takeError
  modify (World.adopt s (diedHandles s outcome).length)
  return (outcome, pending)

def exchanged (s : SessionId) (outcome : Except Fault (Answer Handle shape))
    (pending : Except Fault (Option Handle)) : List Handle :=
  diedHandles s outcome ++ (HostM.stakesOf outcome ++ pendingHandles pending)

/-- How a crossing ends when the request and the look at the pending error came out so. -/
def conclude (read : Handle → HostM Value) (s : SessionId) (operation : String) :
    Except Fault (Answer Handle shape) → Except Fault (Option Handle) → HostM (Answer Handle shape)
  | .ok answer, .ok none => return answer
  | .ok answer, .ok (some e) => do
    let failure ← runtimeError read e
    HostM.release (e :: answer.stakes)
    throw failure
  | .error (.died value), pending => do
    let failure ← runtimeError read ⟨s, value⟩
    HostM.release (⟨s, value⟩ :: pendingHandles pending)
    throw failure
  | .error fault, pending => do
    HostM.release (pendingHandles pending)
    throw (fault.toHostError operation)
  | .ok answer, .error fault => do
    HostM.release answer.stakes
    throw (fault.toHostError operation)

theorem modify_adopt_zero (s : SessionId) {α : Type} (x : HostM α) :
    (do modify (World.adopt s 0); x) = x := by
  funext w
  change x (w.adopt s 0) = x w
  rw [World.adopt_zero]

theorem crossWith_eq (read : Handle → HostM Value) (s : SessionId) (operation : String)
    (request : Request Handle shape) : crossWith read s operation request = (do
      HostM.ensureLive s operation
      let (outcome, pending) ← exchange s request
      conclude read s operation outcome pending) := by
  unfold crossWith exchange
  simp only [bind_assoc, pure_bind]
  refine bind_congr fun _ => bind_congr fun outcome => bind_congr fun pending => ?_
  have hzero (x : HostM (Answer Handle shape)) : x = (do modify (World.adopt s 0); x) :=
    (modify_adopt_zero s x).symm
  rcases outcome with fault | answer
  · cases fault with
    | died value => rfl
    | _ => exact hzero _
  · rcases pending with fault | _ | e <;> exact hzero _

theorem run_ensureLive (s : SessionId) (operation : String) (w : World) :
    (HostM.ensureLive s operation).run w =
      match (w.session s).stage.refusal operation with
      | some e => (.error e, w)
      | none => (.ok (), w) := by
  rw [HostM.ensureLive, HostM.session, bind_assoc, run_get_bind, pure_bind]
  cases (w.session s).stage.refusal operation <;> rfl

theorem refusal_eq_none_iff {stage : Stage} :
    stage.refusal operation = none ↔ stage = .initialized := by
  cases stage <;> simp [Stage.refusal]

theorem refusal_handles {stage : Stage} {e : HostError} (he : stage.refusal operation = some e) :
    e.handles = [] := by
  cases stage <;> cases he <;> rfl

theorem run_ask (s : SessionId) (request : Request Handle shape) (w : World) :
    (HostM.ask s request).run w = match w.ask s (request.map Handle.cell) with
      | (.ok answer, w') => (.ok (.ok (answer.map fun c => ⟨s, c⟩)), w'.adopt s answer.stakes.length)
      | (.error fault, w') => (.ok (.error fault), w') := by
  rw [HostM.ask, run_modifyGet_bind]
  rcases w.ask s (request.map Handle.cell) with ⟨_ | _, w'⟩ <;> rfl

theorem exchange_ends (s : SessionId) (request : Request Handle shape) (w : World) :
    ∃ r w', (exchange s request).run w = (.ok r, w') := by
  have hask {shape : Shape} (request : Request Handle shape) (w : World) :
      ∃ r w', (HostM.ask s request).run w = (.ok r, w') := by
    rw [run_ask]
    rcases w.ask s (request.map Handle.cell) with ⟨_ | _, w'⟩ <;> exact ⟨_, _, rfl⟩
  obtain ⟨outcome, w₁, hrun⟩ := hask request w
  obtain ⟨pending, w₂, hrun'⟩ := hask .takeError w₁
  exact ⟨_, _, by rw [exchange, run_bind_ok hrun, run_bind_ok hrun']; rfl⟩

/-- An operation that never succeeds. -/
def Failing {α : Type} (x : HostM α) : Prop := ∀ w a w', x.run w ≠ (.ok a, w')

theorem failing_throw {α : Type} (e : HostError) : Failing (throw e : HostM α) :=
  fun _ _ _ h => nomatch h

theorem failing_bind {α β : Type} {x : HostM α} {f : α → HostM β} (hf : ∀ a, Failing (f a)) :
    Failing (x >>= f) := by
  intro w b w' h
  rw [run_bind] at h
  split at h
  · exact hf _ _ _ _ h
  · cases h

theorem conclude_ok {outcome : Except Fault (Answer Handle shape)}
    {pending : Except Fault (Option Handle)} {answer : Answer Handle shape}
    (hrun : (conclude read s operation outcome pending).run w = (.ok answer, w')) :
    outcome = .ok answer ∧ pending = .ok none ∧ w' = w := by
  have hfail : ∀ x : HostM (Answer Handle shape), Failing x → x.run w ≠ (.ok answer, w') :=
    fun x hx => hx w answer w'
  rcases outcome with fault | found
  · cases fault with
    | died value =>
      exact absurd hrun (hfail _ (failing_bind fun _ => failing_bind fun _ => failing_throw _))
    | _ => exact absurd hrun (hfail _ (failing_bind fun _ => failing_throw _))
  · rcases pending with fault | _ | e
    · exact absurd hrun (hfail _ (failing_bind fun _ => failing_throw _))
    · cases hrun
      exact ⟨rfl, rfl, rfl⟩
    · exact absurd hrun (hfail _ (failing_bind fun _ => failing_bind fun _ => failing_throw _))

theorem crossWith_ok {answer : Answer Handle shape}
    (hrun : (crossWith read s operation request).run w = (.ok answer, w')) :
    (exchange s request).run w = (.ok (.ok answer, .ok none), w') := by
  rw [crossWith_eq, run_bind, run_ensureLive] at hrun
  cases hr : (w.session s).stage.refusal operation with
  | some e => rw [hr] at hrun; cases hrun
  | none =>
    rw [hr] at hrun
    obtain ⟨⟨outcome, pending⟩, w₁, hexchange⟩ := exchange_ends s request w
    dsimp only at hrun
    rw [run_bind_ok hexchange] at hrun
    obtain ⟨rfl, rfl, rfl⟩ := conclude_ok hrun
    exact hexchange

theorem crossWith_initialized {answer : Answer Handle shape}
    (hrun : (crossWith read s operation request).run w = (.ok answer, w')) :
    (w.session s).stage = .initialized := by
  rw [crossWith_eq, run_bind, run_ensureLive] at hrun
  cases hr : (w.session s).stage.refusal operation with
  | some e => rw [hr] at hrun; cases hrun
  | none => exact refusal_eq_none_iff.1 hr

theorem crossWith_session {answer : Answer Handle shape}
    (hrun : (crossWith read s operation request).run w = (.ok answer, w')) :
    ∀ h ∈ answer.stakes, h.session = s := by
  obtain ⟨outcome, w₁, hask, hrest⟩ := run_bind_eq_ok (crossWith_ok hrun)
  obtain ⟨pending, w₂, -, hrest⟩ := run_bind_eq_ok hrest
  cases hrest
  rw [run_ask] at hask
  split at hask
  · next found _ _ =>
    obtain rfl : found.map (fun c => (⟨s, c⟩ : Handle)) = answer := by
      have := congrArg Prod.fst hask
      simpa using this
    intro h hh
    rw [Answer.stakes_map] at hh
    obtain ⟨c, -, rfl⟩ := List.mem_map.1 hh
    rfl
  · cases hask

/-! ## Crossings to a running interpreter -/

/-- What an interpreter answered, with handles of the session in place of cells. -/
def handled (s : SessionId) (r : Except Fault (Answer CellId shape)) :
    Except Fault (Answer Handle shape) := r.map (Answer.map fun c => ⟨s, c⟩)

section
variable {setup : Setup} {h h₁ h₂ : Heap} {r : Except Fault (Answer CellId shape)}
  {pending : Except Fault (Option CellId)}

theorem World.RunsOn.run_ask (hr : w.RunsOn s setup h)
    (hanswer : (Heap.answer setup (request.map Handle.cell)).run h = (r, h₁)) :
    (HostM.ask s request).run w =
      (.ok (handled s r), w.put s h₁ (HostM.stakesOf (handled s r)).length) := by
  rw [Embedding.run_ask, hr.ask, hanswer]
  cases r with
  | error e => rfl
  | ok a =>
    simp only [World.adopt_put, handled, Except.map, HostM.stakesOf, Answer.stakes_map,
      List.length_map, Nat.zero_add]

/-- The handle of a pending error in place of its cell. -/
def handledError (s : SessionId) (pending : Except Fault (Option CellId)) :
    Except Fault (Option Handle) := pending.map (Option.map fun c => ⟨s, c⟩)

theorem exchanged_answer (s : SessionId) (answer : Answer CellId shape) :
    exchanged s (handled s (.ok answer)) (handledError s (.ok none)) =
      answer.stakes.map fun c => ⟨s, c⟩ := (List.append_nil _).trans (Answer.stakes_map ..)

theorem World.RunsOn.run_exchange (hr : w.RunsOn s setup h)
    (hanswer : (Heap.answer setup (request.map Handle.cell)).run h = (r, h₁))
    (htake : Heap.takeError.run h₁ = (pending, h₂)) :
    (exchange s request).run w = (.ok (handled s r, handledError s pending),
      w.put s h₂ (exchanged s (handled s r) (handledError s pending)).length) := by
  have htake' : (HostM.ask s .takeError).run (w.put s h₁ (HostM.stakesOf (handled s r)).length) =
      _ := (hr.put h₁ _).run_ask htake
  rw [exchange, run_bind_ok (hr.run_ask hanswer), run_bind_ok htake', World.put_put,
    run_modify_bind, World.adopt_put, exchanged, List.length_append, List.length_append,
    Nat.add_comm (diedHandles s (handled s r)).length]
  rfl

/-- A crossing to a running interpreter is its exchange and the conclusion from it. -/
theorem World.RunsOn.run_crossWith (hr : w.RunsOn s setup h) (read : Handle → HostM Value)
    (operation : String)
    (hanswer : (Heap.answer setup (request.map Handle.cell)).run h = (r, h₁))
    (htake : Heap.takeError.run h₁ = (pending, h₂)) :
    (crossWith read s operation request).run w =
      (conclude read s operation (handled s r) (handledError s pending)).run
        (w.put s h₂ (exchanged s (handled s r) (handledError s pending)).length) := by
  have hlive : (HostM.ensureLive s operation).run w = (.ok (), w) := by
    rw [run_ensureLive, hr.stage]
    rfl
  rw [crossWith_eq, run_bind_ok hlive, run_bind_ok (hr.run_exchange hanswer htake)]

end

theorem run_errorText (e : Handle) (w : World) : ∃ message, (errorText e).run w = (.ok message, w) := by
  have hask := World.ask_toBytes w e.session e.cell
  rw [errorText, run_modifyGet_bind, hask]
  cases (w.ask e.session (.toBytes e.cell)).1 <;> exact ⟨_, rfl⟩

end Embedding
