import Embedding.Proofs.Host.Steady

/-!
# Failures of host operations

What the errors can be that an operation fails with. A crossing fails with an error of its operation
or with one that foreign code has raised.
-/

namespace Embedding

variable {α β : Type} {P Q : HostError → Prop} {x : HostM α} {f : α → HostM β} {w w' : World}
  {s : SessionId} {operation : String} {shape : Shape}

/-- Every error of the operation is of a kind. -/
def FailsWith (P : HostError → Prop) (x : HostM α) : Prop :=
  ∀ w e w', x.run w = (.error e, w') → P e

theorem failsWith_throw {e : HostError} (he : P e) : FailsWith P (throw e : HostM α) :=
  fun _ _ _ h => by cases h; exact he

theorem Unfailing.failsWith (hx : Unfailing x) : FailsWith P x := fun w _ _ h => by
  obtain ⟨a, w', hrun⟩ := hx w
  cases hrun.symm.trans h

theorem FailsWith.mono (hx : FailsWith P x) (h : ∀ e, P e → Q e) : FailsWith Q x :=
  fun w e w' hrun => h e (hx w e w' hrun)

theorem FailsWith.bind (hx : FailsWith P x)
    (hf : ∀ a w w', x.run w = (.ok a, w') → FailsWith P (f a)) : FailsWith P (x >>= f) := by
  intro w e w' hrun
  cases h : x.run w with
  | mk r w₁ =>
    rw [run_bind, h] at hrun
    cases r with
    | ok a => exact hf a w w₁ h w₁ e w' hrun
    | error e' =>
      cases hrun
      exact hx w e w' h

theorem failsWith_attempt_bind {f : Except HostError α → HostM β}
    (hf : ∀ r w w', x.run w = (r, w') → FailsWith P (f r)) : FailsWith P (x.attempt >>= f) :=
  (unfailing_attempt x).failsWith.bind fun r w w' hrun => hf r w w' (by cases hrun; rfl)

/-! ## Crossings -/

/-- An error of the operation, or one that was raised. -/
def HostError.OfCrossing (operation : String) (e : HostError) : Prop :=
  (∃ reason, e = .lifecycle operation reason) ∨ ∃ message value, e = .runtime message value

theorem ofCrossing_refusal {stage : Stage} {e : HostError}
    (he : stage.refusal operation = some e) : e.OfCrossing operation := by
  cases stage <;> cases he <;> exact .inl ⟨_, rfl⟩

theorem ofCrossing_fault (fault : Fault) : (fault.toHostError operation).OfCrossing operation := by
  cases fault <;> first | exact .inl ⟨_, rfl⟩ | exact .inr ⟨_, _, rfl⟩

theorem runtimeError_ok {read : Handle → HostM Value} {e : Handle} {failure : HostError}
    (hrun : (runtimeError read e).run w = (.ok failure, w')) :
    ∃ message value, failure = .runtime message value := by
  obtain ⟨message, w₁, -, hrun⟩ := run_bind_eq_ok hrun
  obtain ⟨r, w₂, -, hrun⟩ := run_bind_eq_ok hrun
  cases r with
  | ok value =>
    cases hrun
    exact ⟨_, _, rfl⟩
  | error failure' =>
    obtain ⟨_, w₃, -, hrun⟩ := run_bind_eq_ok hrun
    cases hrun
    exact ⟨_, _, rfl⟩

theorem failsWith_failure (read : Handle → HostM Value) (e : Handle) (released : List Handle) :
    FailsWith (HostError.OfCrossing operation) (do
      let failure ← runtimeError read e
      HostM.release released
      throw failure : HostM α) := by
  refine (Stock.unfailing_runtimeError read e).failsWith.bind fun failure w w' hrun => ?_
  refine (unfailing_release released).failsWith.bind fun _ _ _ _ => failsWith_throw ?_
  exact .inr (runtimeError_ok hrun)

theorem failsWith_fault (fault : Fault) (released : List Handle) :
    FailsWith (HostError.OfCrossing operation) (do
      HostM.release released
      throw (fault.toHostError operation) : HostM α) :=
  (unfailing_release released).failsWith.bind fun _ _ _ _ => failsWith_throw (ofCrossing_fault fault)

theorem failsWith_conclude (read : Handle → HostM Value)
    (outcome : Except Fault (Answer Handle shape)) (pending : Except Fault (Option Handle)) :
    FailsWith (HostError.OfCrossing operation) (conclude read s operation outcome pending) := by
  rcases outcome with fault | answer
  · cases fault with
    | died value => exact failsWith_failure read ⟨s, value⟩ _
    | _ => exact failsWith_fault _ _
  · rcases pending with fault | _ | e
    · exact failsWith_fault fault _
    · exact (unfailing_pure _).failsWith
    · exact failsWith_failure read e _

theorem failsWith_ensureLive (s : SessionId) (operation : String) :
    FailsWith (HostError.OfCrossing operation) (HostM.ensureLive s operation) := by
  intro w e w' hrun
  rw [run_ensureLive] at hrun
  cases hr : (w.session s).stage.refusal operation with
  | none => rw [hr] at hrun; cases hrun
  | some e' =>
    rw [hr] at hrun
    cases hrun
    exact ofCrossing_refusal hr

theorem failsWith_crossWith (read : Handle → HostM Value) (s : SessionId) (operation : String)
    (request : Request Handle shape) :
    FailsWith (HostError.OfCrossing operation) (crossWith read s operation request) := by
  rw [crossWith_eq]
  refine (failsWith_ensureLive s operation).bind fun _ _ _ _ => ?_
  have hexchange : Unfailing (exchange s request) := fun w => exchange_ends s request w
  exact hexchange.failsWith.bind fun r _ _ _ => failsWith_conclude read r.1 r.2

/-! ## Starts -/

def HostError.OfLoading (e : HostError) : Prop :=
  (∃ reason, e = .lifecycle "load" reason) ∨ ∃ package message, e = .loading package message

theorem failsWith_require (s : SessionId) (package : String) :
    FailsWith HostError.OfLoading (s.require package) := by
  refine failsWith_attempt_bind fun r w w' hrun => ?_
  rcases r with e | _
  · rcases failsWith_crossWith _ _ _ _ w e w' hrun with ⟨reason, rfl⟩ | ⟨message, value, rfl⟩
    · exact failsWith_throw (.inl ⟨reason, rfl⟩)
    · exact (unfailing_release _).failsWith.bind fun _ _ _ _ => failsWith_throw (.inr ⟨_, _, rfl⟩)
  · exact (unfailing_pure _).failsWith

theorem failsWith_preload (s : SessionId) : ∀ packages : List String,
    FailsWith HostError.OfLoading (s.preload packages)
  | [] => (unfailing_pure _).failsWith
  | package :: packages => by
    refine failsWith_attempt_bind fun r w w' hrun => ?_
    cases r with
    | ok _ => exact failsWith_preload s packages
    | error e =>
      have habandon : Unfailing s.abandon := fun w => ⟨_, _, rfl⟩
      exact habandon.failsWith.bind fun _ _ _ _ =>
        failsWith_throw (failsWith_require s package w e w' hrun)

theorem failsWith_construct (s : SessionId) : FailsWith (fun e => ∃ fault : Fault,
    e = .lifecycle "initialize" s!"interpreter construction failed: {fault.message}") s.construct := by
  intro w e w' hrun
  rw [run_construct_eq] at hrun
  generalize w.ask s (w.opening s) = p at hrun
  obtain ⟨fault | _, w₁⟩ := p <;> cases hrun
  exact ⟨fault, rfl⟩

end Embedding
