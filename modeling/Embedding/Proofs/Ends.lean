/-!
# Where a computation ends

A computation that may fail, started in a state, ends with a result in another state. What holds of
both is put together along the computation, step by step.
-/

namespace Embedding

variable {ε σ α β : Type}

theorem run_bind (x : ExceptT ε (StateM σ) α) (f : α → ExceptT ε (StateM σ) β) (s : σ) :
    (x >>= f).run s = match x.run s with
      | (.ok a, s') => (f a).run s'
      | (.error e, s') => (.error e, s') := by
  change (match x.run s with
    | (r, s') => (ExceptT.bindCont f r : StateM σ (Except ε β)) s') = _
  cases x.run s with
  | mk r s' => cases r <;> rfl

theorem run_bind_ok {x : ExceptT ε (StateM σ) α} {f : α → ExceptT ε (StateM σ) β} {s s' : σ} {a : α}
    (hx : x.run s = (.ok a, s')) : (x >>= f).run s = (f a).run s' := by
  rw [run_bind, hx]

theorem run_bind_error {x : ExceptT ε (StateM σ) α} {f : α → ExceptT ε (StateM σ) β} {s s' : σ}
    {e : ε} (hx : x.run s = (.error e, s')) : (x >>= f).run s = (.error e, s') := by
  rw [run_bind, hx]

theorem run_bind_eq_ok {x : ExceptT ε (StateM σ) α} {f : α → ExceptT ε (StateM σ) β} {s s' : σ}
    {b : β} (h : (x >>= f).run s = (.ok b, s')) :
    ∃ a s₁, x.run s = (.ok a, s₁) ∧ (f a).run s₁ = (.ok b, s') := by
  rw [run_bind] at h
  cases hx : x.run s with
  | mk r s₁ =>
    rw [hx] at h
    cases r with
    | ok a => exact ⟨a, s₁, rfl, h⟩
    | error e => cases h

theorem run_pure (a : α) (s : σ) : (pure a : ExceptT ε (StateM σ) α).run s = (.ok a, s) := rfl

theorem run_get_bind (f : σ → ExceptT ε (StateM σ) β) (s : σ) :
    ((get : ExceptT ε (StateM σ) σ) >>= f).run s = (f s).run s := rfl

theorem run_modify_bind (g : σ → σ) (f : PUnit → ExceptT ε (StateM σ) β) (s : σ) :
    ((modify g : ExceptT ε (StateM σ) PUnit) >>= f).run s = (f ⟨⟩).run (g s) := rfl

theorem run_modifyGet_bind (g : σ → α × σ) (f : α → ExceptT ε (StateM σ) β) (s : σ) :
    ((modifyGet g : ExceptT ε (StateM σ) α) >>= f).run s = (f (g s).1).run (g s).2 := rfl

theorem run_set_bind (t : σ) (f : PUnit → ExceptT ε (StateM σ) β) (s : σ) :
    ((set t : ExceptT ε (StateM σ) PUnit) >>= f).run s = (f ⟨⟩).run t := rfl

theorem run_tryCatch (x : ExceptT ε (StateM σ) α) (f : ε → ExceptT ε (StateM σ) α) (s : σ) :
    (tryCatch x f).run s = match x.run s with
      | (.ok a, s') => (.ok a, s')
      | (.error e, s') => (f e).run s' := by
  change (match x.run s with
    | (r, s') => (match r with
      | .ok a => pure (.ok a)
      | .error e => (f e).run : StateM σ (Except ε α)) s') = _
  rcases x.run s with ⟨_ | _, s'⟩ <;> rfl

theorem run_map (f : α → β) (x : ExceptT ε (StateM σ) α) (s : σ) :
    (f <$> x).run s = ((x.run s).1.map f, (x.run s).2) := by
  rw [map_eq_pure_bind, run_bind]
  rcases x.run s with ⟨_ | _, s'⟩ <;> rfl

theorem run_ofExcept (r : Except ε α) (s : σ) : (ofExcept r : ExceptT ε (StateM σ) α).run s = (r, s) := by
  cases r <;> rfl

theorem exists_error {x : ExceptT ε (StateM σ) α} {s : σ} (hfails : (x.run s).1.isOk = false) :
    ∃ e s', x.run s = (.error e, s') := by
  rcases hrun : x.run s with ⟨_ | _, s'⟩
  · exact ⟨_, s', rfl⟩
  · rw [hrun] at hfails
    cases hfails

/-- `P` holds of the result of `x` and of the state that it leaves, when it starts in `s`. -/
def Ends (x : ExceptT ε (StateM σ) α) (s : σ) (P : Except ε α → σ → Prop) : Prop :=
  P (x.run s).1 (x.run s).2

section
variable {x : ExceptT ε (StateM σ) α} {f : α → ExceptT ε (StateM σ) β} {s s' : σ}
  {P Q : Except ε α → σ → Prop} {R : Except ε β → σ → Prop}

theorem eq_ok_of_toOption {r : Except ε α} {a : α} (hr : r.toOption = some a) : r = .ok a := by
  cases r <;> cases hr
  rfl

theorem exists_run_of_toOption {x : ExceptT ε (StateM σ) α} {s : σ} {a : α}
    (hr : (x.run s).1.toOption = some a) : ∃ s', x.run s = (.ok a, s') :=
  ⟨(x.run s).2, Prod.ext (eq_ok_of_toOption hr) rfl⟩

theorem Ends.mono (hx : Ends x s Q) (h : ∀ r s', Q r s' → P r s') : Ends x s P := h _ _ hx

theorem ends_of_run {r : Except ε α} (hx : x.run s = (r, s')) (h : P r s') : Ends x s P := by
  unfold Ends; rw [hx]; exact h

theorem Ends.of_run {r : Except ε α} (h : Ends x s P) (hx : x.run s = (r, s')) : P r s' := by
  unfold Ends at h; rwa [hx] at h

theorem Ends.congr {y : ExceptT ε (StateM σ) α} (hx : Ends x s P) (hrun : y.run s = x.run s) :
    Ends y s P := by unfold Ends; rw [hrun]; exact hx

theorem ends_pure {a : α} (h : P (.ok a) s) : Ends (pure a) s P := h

theorem ends_throw {e : ε} (h : P (.error e) s) : Ends (throw e) s P := h

theorem Ends.bind (hx : Ends x s Q) (hf : ∀ a s', Q (.ok a) s' → Ends (f a) s' R)
    (he : ∀ e s', Q (.error e) s' → R (.error e) s') : Ends (x >>= f) s R := by
  unfold Ends at hx ⊢
  rw [run_bind]
  cases h : x.run s with
  | mk r s' =>
    rw [h] at hx
    cases r with
    | ok a => exact hf a s' hx
    | error e => exact he e s' hx

end

/-! ## Invariants of the state -/

/-- The invariant of the state goes on through the computation, whether it fails or not. -/
def Preserves (I : σ → Prop) (x : ExceptT ε (StateM σ) α) : Prop := ∀ s, I s → I (x.run s).2

section
variable {I : σ → Prop} {x : ExceptT ε (StateM σ) α} {f : α → ExceptT ε (StateM σ) β}

theorem preserves_pure (a : α) : Preserves I (pure a : ExceptT ε (StateM σ) α) := fun _ hs => hs

theorem preserves_throw (e : ε) : Preserves I (throw e : ExceptT ε (StateM σ) α) := fun _ hs => hs

theorem preserved_bind {s : σ} (hx : I (x.run s).2) (hf : ∀ a, Preserves I (f a)) :
    I ((x >>= f).run s).2 := by
  rw [run_bind]
  cases hrun : x.run s with
  | mk r s' =>
    rw [hrun] at hx
    cases r with
    | ok a => exact hf a s' hx
    | error e => exact hx

theorem Preserves.bind (hx : Preserves I x) (hf : ∀ a, Preserves I (f a)) :
    Preserves I (x >>= f) := fun s hs => preserved_bind (hx s hs) hf

/-- What comes after a step may depend on what is true of the result of the step. -/
theorem Preserves.bind_of {P : α → Prop} (hx : ∀ s, I s → Ends x s fun r s' => I s' ∧ ∀ a, r = .ok a → P a)
    (hf : ∀ a, P a → Preserves I (f a)) : Preserves I (x >>= f) := by
  intro s hs
  have hx := hx s hs
  unfold Ends at hx
  rw [run_bind]
  cases hrun : x.run s with
  | mk r s' =>
    rw [hrun] at hx
    cases r with
    | ok a => exact hf a (hx.2 a rfl) s' hx.1
    | error e => exact hx.1

theorem preserves_get {f : σ → ExceptT ε (StateM σ) β} (hf : ∀ s, Preserves I (f s)) :
    Preserves I (get >>= f) := fun s hs => hf s s hs

theorem preserves_modify {g : σ → σ} (hg : ∀ s, I s → I (g s)) :
    Preserves I (modify g : ExceptT ε (StateM σ) PUnit) := hg

theorem preserves_forM {f : α → ExceptT ε (StateM σ) PUnit} : ∀ {l : List α},
    (∀ a ∈ l, Preserves I (f a)) → Preserves I (l.forM f)
  | [], _ => preserves_pure PUnit.unit
  | a :: l, hf => by
    change Preserves I (f a >>= fun _ => l.forM f)
    exact (hf a (.head _)).bind fun _ => preserves_forM fun b hb => hf b (.tail _ hb)

theorem preserves_mapM (hf : ∀ a, Preserves I (f a)) : ∀ l : List α, Preserves I (l.mapM f)
  | [] => preserves_pure []
  | a :: l => by
    rw [List.mapM_cons]
    exact (hf a).bind fun _ => (preserves_mapM hf l).bind fun _ => preserves_pure _

end

end Embedding
