import Embedding.Proofs.Heap.Bonds

/-!
# The error that a call leaves

Every sub starts with an empty `$@`, whatever its caller had left there. What `$@` holds when a call has
returned is therefore what was written to it last since the call began, by its body or in the calls that
the body made.
-/

namespace Embedding

variable {α : Type} {e : CellId} {s t : Scalar} {h h' : Heap}
  {call : Target CellId → List CellId → HeapM (List CellId)}
  {L : Target CellId → List CellId → Heap → Option Scalar}

/-- The cell whose value an action writes to the error variable. -/
def Action.written? (e : CellId) (h : Heap) : {shape : Shape} → Action shape → Option CellId
  | _, .setError value => some value
  | _, .assign target value => if target = e then some value else none
  | _, .setGlobal name value =>
    if h.symbol? .scalar (Name.qualify name) = some e then some value else none
  | _, _ => none

/-- What the error variable holds after an action that found `s` there, where `L` says it of calls. -/
def Action.errorAfter (L : Target CellId → List CellId → Heap → Option Scalar) (e : CellId) (h : Heap)
    (s : Scalar) {shape : Shape} (action : Action shape) : Option Scalar :=
  match action.written? e h, action.called? with
  | some value, _ => ((Heap.takeValue value).run h).1.toOption
  | none, some (target, args) => L target args h
  | none, none => some s

/-- What the error variable holds after the run of a procedure that found `s` there. -/
def Proc.errorAfter (call : Target CellId → List CellId → HeapM (List CellId))
    (L : Target CellId → List CellId → Heap → Option Scalar) (e : CellId) :
    Proc α → Frame → Scalar → Option Scalar
  | .done _, _, s | .die _, _, s => some s
  | .act action next, f, s =>
    let (answer, f') := (Frame.perform call action).run f
    (action.errorAfter L e f.heap s).bind fun s' => (next answer).errorAfter call L e f' s'

namespace Heap

/-- What the error variable holds when a body has returned. -/
def bodyError (call : Target CellId → List CellId → HeapM (List CellId))
    (L : Target CellId → List CellId → Heap → Option Scalar) (e : CellId) (body : Proc (List CellId))
    (context : Context) (h : Heap) : Option Scalar :=
  match ((invoke call body context).run h).1 with
  | .ok _ => body.errorAfter call L e (startFrame h) (.ofBytes [] false)
  | .error _ => none

/-- What the error variable holds when a call has returned. -/
def callError (e : CellId) : (depth : Nat) → Target CellId → List CellId → Context → Heap → Option Scalar
  | 0, _, _, _, _ => none
  | depth + 1, target, args, context, h =>
    (callee? target args context h).bind fun (body, h') =>
      bodyError (fun target args => callWithin depth target args .list)
        (fun target args => callError e depth target args .list) e body context h'

end Heap

/-- What the error variable holds when the interpreter has run code for a request. -/
def Request.errorLeft (e : CellId) (setup : Setup) :
    {shape : Shape} → Request CellId shape → Heap → Option Scalar
  | _, .call target args context, h => Heap.callError e Heap.maxDepth target args context h
  | _, .eval source context, h =>
    setup.evaluator.bind fun evaluator =>
      Heap.bodyError (fun target args => Heap.callWithin Heap.maxDepth target args .list)
        (fun target args => Heap.callError e Heap.maxDepth target args .list) e
        (evaluator source ⟨"(eval)", [], context⟩) context h
  | _, _, _ => none

/-- No action of the run writes to the error variable, and `P` says so of its calls. -/
def Proc.Spares (call : Target CellId → List CellId → HeapM (List CellId))
    (P : Target CellId → List CellId → Heap → Prop) (e : CellId) : Proc α → Frame → Prop
  | .done _, _ | .die _, _ => True
  | .act action next, f =>
    (action.written? e f.heap = none ∧ action.Meets P f.heap) ∧
      (next ((Frame.perform call action).run f).1).Spares call P e ((Frame.perform call action).run f).2

namespace Heap

/-- The call returns, and nothing is written to the error variable but by the entry into subs. -/
def CallSpares (e : CellId) : (depth : Nat) → Target CellId → List CellId → Context → Heap → Prop
  | 0, _, _, _, _ => False
  | depth + 1, target, args, context, h =>
    ((callWithin (depth + 1) target args context).run h).1.isOk = true ∧
      ∀ p ∈ callee? target args context h,
        p.1.Spares (fun target args => callWithin depth target args .list)
          (fun target args => CallSpares e depth target args .list) e (startFrame p.2)

end Heap

section
variable {P : Target CellId → List CellId → Heap → Prop} [∀ target args h, Decidable (P target args h)]

def decideSpares : (p : Proc α) → (f : Frame) → Decidable (p.Spares call P e f)
  | .done _, _ | .die _, _ => .isTrue trivial
  | .act action next, f =>
    let step := (Frame.perform call action).run f
    have := decideSpares (next step.1) step.2
    inferInstanceAs (Decidable ((_ ∧ _) ∧ _))

instance decideCallSpares : (depth : Nat) → (target : Target CellId) → (args : List CellId) →
    (context : Context) → (h : Heap) → Decidable (Heap.CallSpares e depth target args context h)
  | 0, _, _, _, _ => .isFalse id
  | depth + 1, target, args, context, h =>
    have := fun target args h => decideCallSpares depth target args .list h
    have (p : Proc (List CellId) × Heap) : Decidable (p.1.Spares
        (fun target args => Heap.callWithin depth target args .list)
        (fun target args => Heap.CallSpares e depth target args .list) e (Heap.startFrame p.2)) :=
      decideSpares p.1 (Heap.startFrame p.2)
    inferInstanceAs (Decidable (_ ∧ ∀ p ∈ Heap.callee? target args context h, _))

end

/-! ## The error variable -/

/-- Anything may be done but to assign to the scalar. -/
def Latitude.sparing (e : CellId) : Latitude where
  assign c := c ≠ e
  bless _ _ := True
  body _ := True

namespace Heap

/-- The error variable holds the scalar, or has it after its use as a number. -/
structure ErrorIs (e : CellId) (s : Scalar) (h : Heap) : Prop where
  old : e.index < h.cells.size
  named : h.symbol? .scalar errorName = some e
  holds : ∀ x, h.cell? e = some x → x.content = .scalar s ∨ x.content = .scalar s.numified

theorem ErrorIs.errorCell (hh : ErrorIs e s h) : h.errorCell = .ok e := errorCell_eq_ok_iff.2 hh.named

theorem Sound.errorIs {σ : List CellId} (hs : h.Sound σ) (he : h.errorCell = .ok e) :
    ∃ s, ErrorIs e s h := by
  obtain ⟨c, s, hc, hscalar⟩ := hs.errorCell
  obtain rfl : e = c := Except.ok.inj (he.symm.trans hc)
  obtain ⟨x, hx, hcontent⟩ := scalar_eq_ok_iff.1 hscalar
  refine ⟨s, lt_of_cell? hx, errorCell_eq_ok_iff.1 he, fun y hy => .inl ?_⟩
  obtain rfl := Option.some.inj (hx.symm.trans hy)
  exact hcontent

def Holds (h : Heap) (c : CellId) (s : Scalar) : Prop :=
  h.scalar c = .ok s ∨ h.scalar c = .ok s.numified

theorem ErrorIs.scalar {σ : List CellId} (hh : ErrorIs e s h) (hs : h.Sound σ) : h.Holds e s := by
  obtain ⟨x, hx⟩ := exists_cell (hs.isLive_errorCell hh.errorCell)
  exact (hh.holds x hx).imp (fun he => scalar_eq_ok_iff.2 ⟨x, hx, he⟩) fun he =>
    scalar_eq_ok_iff.2 ⟨x, hx, he⟩

theorem ErrorIs.of_cells (hh : ErrorIs e s h) (hsize : h.cells.size ≤ h'.cells.size)
    (hsymbols : h'.symbols = h.symbols)
    (hcells : ∀ x', h'.cell? e = some x' → ∃ x, h.cell? e = some x ∧ x'.content = x.content) :
    ErrorIs e s h' where
  old := Nat.lt_of_lt_of_le hh.old hsize
  named := by
    rw [symbol?, hsymbols]
    exact hh.named
  holds x' hx' := by
    obtain ⟨x, hx, hcontent⟩ := hcells x' hx'
    rw [hcontent]
    exact hh.holds x hx

theorem ErrorIs.shrinks (hh : ErrorIs e s h) (hs : h.Shrinks h') : ErrorIs e s h' :=
  hh.of_cells (Nat.le_of_eq hs.size.symm) hs.symbols fun x' hx' => by
    obtain ⟨x, hx, hcontent, -⟩ := hs.cells e x' hx'
    exact ⟨x, hx, hcontent⟩

theorem ErrorIs.grows (hh : ErrorIs e s h) (hg : h.Grows h') : ErrorIs e s h' :=
  hh.of_cells hg.size hg.symbols fun x' hx' => by
    obtain ⟨x, hx⟩ := hg.old e x' hx' hh.old
    obtain ⟨n, hn⟩ := hg.cells e x hx
    obtain rfl := Option.some.inj (hx'.symm.trans hn)
    exact ⟨x, hx, rfl⟩

theorem ErrorIs.setCell (hh : ErrorIs e s h) {c : CellId} {new : Cell}
    (hnew : c = e → new.content = .scalar t ∨ new.content = .scalar t.numified)
    (hsame : c ≠ e → t = s) : ErrorIs e t (h.setCell c (some new)) where
  old := by
    rw [Heap.setCell, Array.size_setIfInBounds]
    exact hh.old
  named := hh.named
  holds x hx := by
    rw [cell?_setCell] at hx
    split at hx
    · next hc =>
      cases hx
      exact hnew hc.1
    · next hc =>
      have hne : c ≠ e := fun he => hc ⟨he, he ▸ hh.old⟩
      rw [hsame hne]
      exact hh.holds x hx

theorem steady_errorIs (e : CellId) (s : Scalar) : Steady (.sparing e) (ErrorIs e s) where
  allocate {h content} hh _ _ := hh.grows (grows_allocate h content)
  recount hh hx n _ := hh.grows (grows_recount hx n)
  drop hh c := hh.shrinks (shrinks_drop _ _ c)
  setContainer hh hx hbecomes _ := by
    refine hh.setCell (fun hc => ?_) fun _ => rfl
    subst hc
    rcases hh.holds _ hx with he | he <;> rw [he] at hbecomes <;> cases hbecomes
  setScalar hh _ _ hassign _ _ := hh.setCell (fun hc => absurd hc hassign) fun _ => rfl
  setNumified hh hx hs := by
    refine hh.setCell (fun hc => ?_) fun _ => rfl
    subst hc
    rcases hh.holds _ hx with he | he <;> cases hs.symm.trans he
    · exact .inr rfl
    · exact .inr (by rw [Scalar.numified_numified])
  setPackage {_ c x package} hh hx _ :=
    hh.setCell (fun hc => hh.holds x (hc ▸ hx)) fun _ => rfl
  define hh _ _ _ hfree := ⟨hh.old, (evolves_define hfree).symbols _ _ _ nofun hh.named, hh.holds⟩
  made hh he := Nat.lt_irrefl _ (show _ < _ from he ▸ hh.old)

/-! ## Writing -/

theorem run_takeValue_grows {c : CellId} {h₁ : Heap} (hg : h.Grows h')
    (hrun : (takeValue c).run h = (.ok t, h₁)) : ∃ h₁', (takeValue c).run h' = (.ok t, h₁') := by
  rw [takeValue_eq] at hrun ⊢
  obtain ⟨x, hx, hrun⟩ := run_query_bind_eq_ok hrun
  obtain ⟨n, hx'⟩ := hg.cells c x (cell_eq_ok_iff.1 hx)
  rw [run_bind_ok (by rw [run_query, cell_ok hx'])]
  dsimp only
  cases htarget : (contentValue c x.content).ref with
  | none =>
    rw [htarget] at hrun
    cases hrun
    exact ⟨h', rfl⟩
  | some target =>
    rw [htarget] at hrun
    obtain ⟨_, h₂, hretain, hreturn⟩ := run_bind_eq_ok hrun
    cases hreturn
    by_cases hlive : h.isLive target
    · obtain ⟨y, hy⟩ := exists_cell (hg.isLive hlive)
      exact ⟨_, by rw [run_bind_ok (run_retain hy)]; rfl⟩
    · rw [run_retain_freed hlive] at hretain
      cases hretain

theorem ErrorIs.assign {value : CellId} {h₁ : Heap} (hh : ErrorIs e s h)
    (htake : (takeValue value).run h = (.ok t, h₁)) : ErrorIs e t ((assign e value).run h).2 := by
  rw [assign_eq]
  cases hold : h.scalar e with
  | error fault =>
    -- the cell of the variable is not there
    rw [run_bind_error (by rw [run_query, hold])]
    refine ⟨hh.old, hh.named, fun x hx => ?_⟩
    rcases hh.holds x hx with he | he <;> rw [scalar_eq_ok_iff.2 ⟨x, hx, he⟩] at hold <;> cases hold
  | ok old =>
    have hg := (takeValue_grows h value).of_run htake
    have hold₁ := hg.scalar_ok hold
    obtain ⟨x, hx, -⟩ := scalar_eq_ok_iff.1 hold₁
    rw [run_bind_ok (by rw [run_query, hold]), run_bind_ok htake,
      run_bind_ok (by rw [run_query, hold₁]), run_bind_ok (run_setContent hx _)]
    have hset : ErrorIs e t (h₁.setCell e (some { x with content := .scalar t })) :=
      (hh.grows hg).setCell (fun _ => .inl rfl) fun hne => absurd rfl hne
    exact hset.shrinks (releaseOption_shrinks _ _)

theorem ErrorIs.setError {value : CellId} {h₁ : Heap} (hh : ErrorIs e s h)
    (htake : (takeValue value).run h = (.ok t, h₁)) : ErrorIs e t ((setError value).run h).2 := by
  rw [Heap.setError, run_bind_ok (by rw [run_query, hh.errorCell])]
  exact hh.assign htake

theorem ErrorIs.clearError (hh : ErrorIs e s h) :
    ErrorIs e (.ofBytes [] false) (clearError.run h).2 := by
  let empty := (h.allocate (.scalar (.ofBytes [] false))).1
  let h₁ := (h.allocate (.scalar (.ofBytes [] false))).2
  have hnew : (newScalar (.ofBytes [] false)).run h = (.ok empty, h₁) := rfl
  have hempty : h₁.cell? empty = some ⟨1, none, .scalar (.ofBytes [] false)⟩ := by
    rw [cell?_allocate, if_pos rfl]
  have htake : (takeValue empty).run h₁ = (.ok (.ofBytes [] false), h₁) := by
    rw [takeValue_eq, run_bind_ok (by rw [run_query, cell_ok hempty])]
    rfl
  have hset := (hh.grows (grows_allocate h _)).setError htake
  rw [Heap.clearError, run_bind_ok hnew, run_bind_ok (run_attempt ..)]
  have hrest : Preserves (ErrorIs e (.ofBytes [] false)) (do
      release empty
      ofExcept ((Heap.setError empty).run h₁).1 : HeapM Unit) :=
    ((steady_errorIs e _).release empty).bind fun _ => preserves_ofExcept _
  exact hrest _ hset

end Heap

/-! ## Running -/

open Heap

theorem Action.not_assigned {shape : Shape} {action : Action shape} (hwritten : action.written? e h = none) :
    (∀ c ∈ action.assigned?, c ≠ e) ∧
      ∀ name ∈ action.variable?, ∀ c, h.symbol? .scalar name = some c → c ≠ e := by
  cases action with
  | assign target value =>
    refine ⟨?_, nofun⟩
    rintro _ ⟨⟩ rfl
    simp [Action.written?] at hwritten
  | setGlobal name value =>
    refine ⟨nofun, ?_⟩
    rintro _ ⟨⟩ c hc rfl
    simp [Action.written?, hc] at hwritten
  | setError value => cases hwritten
  | _ => exact ⟨nofun, nofun⟩

theorem Heap.ErrorIs.spared {shape : Shape} {action : Action shape} {f : Frame} (hh : ErrorIs e s f.heap)
    (hwritten : action.written? e f.heap = none)
    (hcall : ∀ p ∈ action.called?, ErrorIs e s ((call p.1 p.2).run f.heap).2) :
    ErrorIs e s ((Frame.perform call action).run f).2.heap :=
  (steady_errorIs e s).on_perform action hh
    ⟨(Action.not_assigned hwritten).1, fun _ _ _ _ => trivial⟩ (Action.not_assigned hwritten).2 hcall

theorem Frame.run_global {name : String} {f : Frame}
    (hsymbol : f.heap.symbol? .scalar (Name.qualify name) = some e) :
    (∃ g, f.heap.Grows g ∧ (Frame.global name).run f =
      (.ok e, { f with heap := g, temporaries := e :: f.temporaries })) ∨
    ∃ f' c, f.heap.Grows f'.heap ∧ ¬ f.heap.isLive e ∧ (Frame.global name).run f = (.error c, f') := by
  have hglobal : (Heap.global .scalar name true).run f.heap =
      (do Heap.retain e; return some e : HeapM (Option CellId)).run f.heap := by
    unfold Heap.global
    rw [run_get_bind, hsymbol]
  by_cases hlive : f.heap.isLive e
  · obtain ⟨x, hx⟩ := exists_cell hlive
    rw [run_bind_ok (run_retain hx)] at hglobal
    refine .inl ⟨_, grows_recount hx (x.refcount + 1), ?_⟩
    unfold Frame.global Frame.orFault
    rw [bind_assoc, run_bind_ok (by rw [run_onHeap, hglobal])]
    rfl
  · rw [run_bind_error (run_retain_freed hlive)] at hglobal
    let message : Content := .scalar (.ofText (Fault.freed e).message)
    let made := (f.heap.allocate message).2
    refine .inr ⟨⟨made, ⟨f.heap.cells.size⟩ :: f.temporaries⟩, ⟨f.heap.cells.size⟩,
      grows_allocate f.heap message, hlive, ?_⟩
    unfold Frame.global Frame.orFault
    rw [bind_assoc, run_bind_ok (by rw [run_onHeap, hglobal])]
    rfl

theorem Heap.ErrorIs.written {shape : Shape} {action : Action shape} {f : Frame} {value : CellId}
    {h₁ : Heap} (hh : ErrorIs e s f.heap) (hwritten : action.written? e f.heap = some value)
    (htake : (takeValue value).run f.heap = (.ok t, h₁)) :
    ErrorIs e t ((Frame.perform call action).run f).2.heap := by
  have hsteady := steady_errorIs e t
  have hend {α : Type} {y : HeapM α} {g : Frame} (hy : ErrorIs e t (y.run g.heap).2) :
      Frame.On (ErrorIs e t) ((Frame.orFault y).run g).2 :=
    preserved_bind (show Frame.On (ErrorIs e t) ((Frame.onHeap y).run g).2 from hy)
      (hsteady.on_answered (fun _ => rfl) fun fault => ⟨fault.message, rfl⟩)
  cases action with
  | setError v =>
    obtain rfl : v = value := Option.some.inj hwritten
    exact hend (hh.setError htake)
  | assign target v =>
    obtain ⟨rfl, rfl⟩ : target = e ∧ v = value := by simpa [Action.written?] using hwritten
    exact hend (hh.assign htake)
  | setGlobal name v =>
    obtain ⟨hsymbol, rfl⟩ : f.heap.symbol? .scalar (Name.qualify name) = some e ∧ v = value := by
      simpa [Action.written?] using hwritten
    have hperform : Frame.perform call (.setGlobal name v) =
        Frame.global name >>= fun c => Frame.orFault (Heap.assign c v) := rfl
    rw [hperform]
    rcases Frame.run_global hsymbol with ⟨g, hg, hrun⟩ | ⟨f', c, hg, hfreed, hrun⟩
    · obtain ⟨h₁', htake'⟩ := run_takeValue_grows hg htake
      rw [run_bind_ok hrun]
      exact hend (g := ⟨g, e :: f.temporaries⟩) ((hh.grows hg).assign htake')
    · rw [run_bind_error hrun]
      have hvacuous : ErrorIs e t f.heap := ⟨hh.old, hh.named, fun x hx => absurd (isLive_of_cell? hx) hfreed⟩
      exact hvacuous.grows hg
  | _ => cases hwritten

/-- One step at a time: what an action leaves in the error variable is what the rest finds there. -/
theorem Proc.errorIs_run (hcall : ∀ target args s t h, ErrorIs e s h → L target args h = some t →
      ErrorIs e t ((call target args).run h).2)
    (p : Proc α) (f : Frame) (hh : ErrorIs e s f.heap) (hafter : p.errorAfter call L e f s = some t) :
    ErrorIs e t ((p.run call).run f).2.heap := by
  induction p generalizing f s with
  | done a =>
    cases hafter
    exact hh
  | die value =>
    cases hafter
    exact hh
  | act action next ih =>
    obtain ⟨s', hs', hrest⟩ := Option.bind_eq_some_iff.1 hafter
    rw [Proc.run_act]
    refine ih _ _ ?_ hrest
    unfold Action.errorAfter at hs'
    split at hs'
    · next value hwritten =>
      cases htake : (takeValue value).run f.heap with
      | mk r h₁ =>
        rw [htake] at hs'
        cases r <;> cases hs'
        exact hh.written hwritten htake
    · next target args _ hcalled =>
      have hleft := hcall target args s s' f.heap hh hs'
      cases action with
      | call target' args' =>
        cases hcalled
        exact (steady_errorIs e s').on_call hleft
      | _ => cases hcalled
    · next hwritten hcalled =>
      cases hs'
      refine hh.spared hwritten fun p hp => ?_
      rw [hcalled] at hp
      cases hp

namespace Heap

/-- A body that returns leaves in the error variable what its own run left there. -/
theorem ErrorIs.invoke (hcall : ∀ target args s t h, ErrorIs e s h → L target args h = some t →
      ErrorIs e t ((call target args).run h).2)
    {body : Proc (List CellId)} {context : Context} (hh : ErrorIs e s h)
    (hleft : bodyError call L e body context h = some t) :
    (∃ values, ((invoke call body context).run h).1 = .ok values) ∧
      ErrorIs e t ((invoke call body context).run h).2 := by
  unfold bodyError at hleft
  cases hrun : (Heap.invoke call body context).run h with
  | mk r h' =>
    rw [hrun] at hleft
    rcases r with fault | results
    · cases hleft
    refine ⟨⟨results, rfl⟩, ?_⟩
    obtain ⟨values, f, h₁, copies, h₂, hbody, hcopy, hrelease, hnarrow⟩ := invoke_eq_ok hrun
    have hstart : ErrorIs e (.ofBytes [] false) (startFrame h).heap := hh.clearError
    have hend := body.errorIs_run hcall (startFrame h) hstart hleft
    have hsteady := steady_errorIs e t
    rw [hbody] at hend
    have h₁Error := preserves_mapM hsteady.copy values _ hend
    rw [hcopy] at h₁Error
    have h₂Error := hsteady.releaseAll f.temporaries.reverse _ h₁Error
    rw [hrelease] at h₂Error
    have hlast := hsteady.narrow context copies _ h₂Error
    rwa [hnarrow] at hlast

theorem run_callWithin {depth : Nat} {target : Target CellId} {args : List CellId} {context : Context}
    {body : Proc (List CellId)} (hcallee : callee? target args context h = some (body, h')) :
    (callWithin (depth + 1) target args context).run h =
      (Heap.invoke (fun target args => callWithin depth target args .list) body context).run h' := by
  unfold callee? at hcallee
  rw [callWithin_succ]
  split at hcallee
  · next c h₁ hresolve =>
    split at hcallee
    · next name code hcontent =>
      cases hcallee
      obtain ⟨x, hx, hcode⟩ := Option.map_eq_some_iff.1 hcontent
      rw [run_bind_ok hresolve, run_bind_ok (by rw [run_query, cell_ok hx]), hcode]
    · cases hcallee
  · cases hcallee

theorem resolve_eq_ok {target : Target CellId} {c : CellId} (hrun : (resolve target).run h = (.ok c, h')) :
    h' = h := by
  cases target with
  | code d =>
    obtain ⟨kind, -, hrun⟩ := run_query_bind_eq_ok hrun
    split at hrun
    · cases hrun
      rfl
    · obtain ⟨referent, -, hrun⟩ := run_query_bind_eq_ok hrun
      obtain ⟨kind, -, hrun⟩ := run_query_bind_eq_ok hrun
      split at hrun
      · cases hrun
        rfl
      · exact absurd hrun not_run_die
    · exact absurd hrun not_run_die
  | named name =>
    unfold resolve at hrun
    rw [run_get_bind] at hrun
    split at hrun
    · cases hrun
      rfl
    · exact absurd hrun not_run_die
  | method invocant name =>
    obtain ⟨className, h₁, hclass, hfind⟩ := run_bind_eq_ok hrun
    obtain ⟨-, rfl⟩ := invocantClass_receiverClass hclass
    rw [run_get_bind] at hfind
    dsimp only at hfind
    split at hfind
    · cases hfind
      rfl
    · exact absurd hfind not_run_die

theorem callee?_eq_some {target : Target CellId} {args : List CellId} {context : Context}
    {body : Proc (List CellId)} (hcallee : callee? target args context h = some (body, h')) : h' = h := by
  unfold callee? at hcallee
  split at hcallee
  · next c h₁ hresolve =>
    split at hcallee
    · cases hcallee
      exact resolve_eq_ok hresolve
    · cases hcallee
  · cases hcallee

/-- A call that returns leaves in the error variable what was written there last since it began. -/
theorem ErrorIs.callWithin {depth : Nat} {target : Target CellId} {args : List CellId} {context : Context}
    (hh : ErrorIs e s h) (hleft : callError e depth target args context h = some t) :
    (∃ values, ((callWithin depth target args context).run h).1 = .ok values) ∧
      ErrorIs e t ((callWithin depth target args context).run h).2 := by
  induction depth generalizing target args context h s t with
  | zero => cases hleft
  | succ depth ih =>
    obtain ⟨⟨body, h₁⟩, hcallee, hbody⟩ := Option.bind_eq_some_iff.1 hleft
    obtain rfl := callee?_eq_some hcallee
    have hcall : ∀ target args s t h, ErrorIs e s h → callError e depth target args .list h = some t →
        ErrorIs e t ((Heap.callWithin depth target args .list).run h).2 :=
      fun _ _ _ _ _ hh hleft => (ih hh hleft).2
    rw [run_callWithin hcallee]
    exact hh.invoke hcall hbody

theorem ErrorIs.answer {setup : Setup} {shape : Shape} {request : Request CellId shape}
    (hh : ErrorIs e s h) (hleft : request.errorLeft e setup h = some t) :
    (∃ a, ((answer setup request).run h).1 = .ok a) ∧ ErrorIs e t ((answer setup request).run h).2 := by
  have hcall : ∀ target args context s t h, ErrorIs e s h →
      callError e maxDepth target args context h = some t →
      (∃ values, ((Heap.callWithin maxDepth target args context).run h).1 = .ok values) ∧
        ErrorIs e t ((Heap.callWithin maxDepth target args context).run h).2 :=
    fun _ _ _ _ _ _ hh hleft => hh.callWithin hleft
  cases request with
  | call target args context => exact hcall target args context s t h hh hleft
  | eval source context =>
    obtain ⟨evaluator, hevaluator, hbody⟩ := Option.bind_eq_some_iff.1 hleft
    have heval : Heap.answer setup (.eval source context) = Heap.eval evaluator source context := by
      unfold Heap.answer
      rw [hevaluator]
    rw [heval]
    exact hh.invoke (fun target args s t h hh hleft => (hcall target args .list s t h hh hleft).2) hbody
  | _ => cases hleft

end Heap

/-! ## Sparing -/

theorem Proc.errorAfter_spares {P : Target CellId → List CellId → Heap → Prop}
    (hP : ∀ target args h, P target args h → L target args h = some s) (p : Proc α) (f : Frame)
    (hspares : p.Spares call P e f) : p.errorAfter call L e f s = some s := by
  induction p generalizing f with
  | done a => rfl
  | die value => rfl
  | act action next ih =>
    obtain ⟨⟨hwritten, hmeets⟩, hnext⟩ := hspares
    have haction : action.errorAfter L e f.heap s = some s := by
      unfold Action.errorAfter
      rw [hwritten]
      cases hcalled : action.called? with
      | none => rfl
      | some p => exact hP _ _ _ (hmeets p hcalled)
    unfold Proc.errorAfter
    rw [haction]
    exact ih _ _ hnext

namespace Heap

theorem isOk_iff {α : Type} {r : Except Fault α} : r.isOk = true ↔ ∃ a, r = .ok a := by
  cases r <;> simp [Except.isOk, Except.toBool]

theorem exists_callee {depth : Nat} {target : Target CellId} {args values : List CellId} {context : Context}
    (hrun : (callWithin depth target args context).run h = (.ok values, h')) :
    ∃ body h', callee? target args context h = some (body, h') := by
  cases depth with
  | zero => exact absurd hrun not_run_die
  | succ depth =>
    rw [callWithin_succ] at hrun
    obtain ⟨c, h₁, hresolve, hrun⟩ := run_bind_eq_ok hrun
    obtain ⟨x, hx, hrun⟩ := run_query_bind_eq_ok hrun
    split at hrun
    · next name body hcontent =>
      refine ⟨body ⟨name, passed target args, context⟩, h₁, ?_⟩
      simp [callee?, hresolve, cell_eq_ok_iff.1 hx, hcontent]
    · exact absurd hrun not_run_die

theorem CallSpares.callError {depth : Nat} {target : Target CellId} {args : List CellId}
    {context : Context} (hspares : CallSpares e depth target args context h) :
    callError e depth target args context h = some (.ofBytes [] false) := by
  induction depth generalizing target args context h with
  | zero => exact hspares.elim
  | succ depth ih =>
    obtain ⟨hok, hbody⟩ := hspares
    obtain ⟨values, hvalues⟩ := isOk_iff.1 hok
    obtain ⟨body, h', hcallee⟩ := exists_callee (Prod.ext hvalues rfl)
    rw [run_callWithin hcallee] at hvalues
    unfold Heap.callError
    rw [hcallee, Option.bind_some]
    dsimp only
    rw [bodyError, hvalues]
    exact Proc.errorAfter_spares (fun _ _ _ => ih) body (startFrame h') (hbody _ hcallee)

end Heap

end Embedding
