import Embedding.Proofs.Heap.Methods
import Embedding.Proofs.Lineages

/-!
# What `can` finds

The sub `can` that all classes have looks for a method in the class of its first argument, and returns a
reference to the sub that it finds. Nothing else happens but that `$@` is emptied.
-/

namespace Embedding

open Heap

variable {h h' h₁ : Heap} {σ τ : List CellId} {a c d e : CellId} {s : Scalar} {f : Frame}
  {className method name : String} {context : Context}
  {call : Target CellId → List CellId → HeapM (List CellId)}

theorem Proc.run_perform {shape : Shape} (action : Action shape) (f : Frame) :
    ((Proc.perform action).run call).run f = (Frame.perform call action).run f := by
  rw [Proc.perform, Proc.run_act]
  cases hrun : (Frame.perform call action).run f with
  | mk answer f' => cases answer <;> rfl

namespace Heap

/-! ## Receivers that are objects -/

theorem kind_of_className (hclass : h.className c = .ok (some className)) : h.kind c = .ok .ref := by
  unfold Heap.className at hclass
  cases hkind : h.kind c with
  | error fault => rw [hkind] at hclass; cases hclass
  | ok kind =>
    rw [hkind] at hclass
    dsimp only [bind, Except.bind] at hclass
    split at hclass
    · next href => rw [href]
    · cases hclass

theorem run_invocantClass (hclass : h.className c = .ok (some className)) (method : String) :
    (invocantClass c method).run h = (.ok className, h) := by
  rw [invocantClass, run_bind_ok (by rw [run_query, kind_of_className hclass])]
  have hquery : (query (·.className c)).run h = (.ok (some className), h) := by rw [run_query, hclass]
  exact run_bind_ok hquery

def unlocated (method className : String) : String :=
  s!"Can't locate object method \"{method}\" via package \"{className}\""

theorem run_resolve_method (hclass : h.className c = .ok (some className)) (method : String) :
    (resolve (.method c method)).run h = match h.methodOf className method with
      | some d => (.ok d, h)
      | none => (die (unlocated method className) : HeapM CellId).run h := by
  rw [resolve, run_bind_ok (run_invocantClass hclass method), run_get_bind]
  change (match h.methodOf className method with
    | some d => pure d
    | none => die (unlocated method className) : HeapM CellId).run h = _
  cases h.methodOf className method with
  | some d => rfl
  | none => rfl

theorem symbol?_of_resolveMethod (hm : h.resolveMethod className method = some d) :
    ∃ name, h.symbol? .code name = some d := by
  obtain ⟨order, horder⟩ := h.exists_depthFirst className
  rw [resolveMethod_eq method horder] at hm
  rcases Option.or_eq_some_iff.1 (Option.orElse_eq_or.symm.trans hm) with hfound | ⟨-, huniversal⟩
  · obtain ⟨ancestor, -, hown⟩ := List.exists_of_findSome?_eq_some hfound
    exact ⟨_, hown⟩
  · exact ⟨_, huniversal⟩

theorem symbol?_of_methodOf (hm : h.methodOf className method = some d) :
    ∃ name, h.symbol? .code name = some d := by
  unfold methodOf at hm
  split at hm
  · exact ⟨method, hm⟩
  · exact symbol?_of_resolveMethod hm

theorem Sound.code_of_symbol? (hs : h.Sound σ) (hd : h.symbol? .code name = some d) :
    ∃ x name body, h.cell? d = some x ∧ x.content = .code name body := by
  obtain ⟨x, hx, hslot⟩ := hs.named.sorts _ _ _ hd
  cases hcontent : x.content with
  | code name body => exact ⟨x, name, body, hx, hcontent⟩
  | _ =>
    rw [hcontent] at hslot
    cases hslot

/-- A call of a method that is found is a call of the sub with the receiver before the arguments. -/
theorem Sound.run_callWithin_method (hs : h.Sound σ) (hclass : h.className c = .ok (some className))
    (hm : h.methodOf className method = some d) (depth : Nat) (args : List CellId) (context : Context) :
    (callWithin depth (.method c method) args context).run h =
      (callWithin depth (.code d) (c :: args) context).run h := by
  obtain ⟨_, hname⟩ := symbol?_of_methodOf hm
  obtain ⟨x, _, _, hx, hcontent⟩ := hs.code_of_symbol? hname
  have hmethod : (resolve (.method c method)).run h = (.ok d, h) := by
    rw [run_resolve_method hclass, hm]
  have hkind : h.kind d = .ok .code := by
    rw [Heap.kind, cell_ok hx]
    exact congrArg (fun content => Except.ok content.kind) hcontent
  have hcode : (resolve (.code d)).run h = (.ok d, h) := by
    rw [resolve, run_bind_ok (by rw [run_query, hkind])]
    rfl
  have hpassed : passed (.code d) (c :: args) = passed (.method c method) args := rfl
  cases depth with
  | zero => rfl
  | succ depth => rw [callWithin_succ, callWithin_succ, run_bind_ok hmethod, run_bind_ok hcode, hpassed]

theorem Sound.run_callWithin_missing (hs : h.Sound σ) (he : h.errorCell = .ok e)
    (hclass : h.className c = .ok (some className)) (hm : h.methodOf className method = none)
    (depth : Nat) (args : List CellId) (context : Context) :
    ∃ x h',
      (callWithin (depth + 1) (.method c method) args context).run h = (.error (.died x), h') ∧
      h'.errorCell = .ok e ∧ x ≠ e ∧ h'.scalar x = .ok (.ofText (unlocated method className)) := by
  obtain ⟨x, h', hdie, he', hne, htext, -⟩ := hs.run_die (α := CellId) he (unlocated method className)
  have hmethod : (resolve (.method c method)).run h = (.error (.died x), h') := by
    rw [run_resolve_method hclass, hm, hdie]
  exact ⟨x, h', by rw [callWithin_succ, run_bind_error hmethod], he', hne, htext⟩

theorem Quiet.no_ref (hq : h.Quiet) (he : h.errorCell = .ok e) : ∃ s, h.scalar e = .ok s ∧ s.ref = none := by
  obtain ⟨c, hc, hfalse⟩ := hq
  obtain rfl : e = c := Except.ok.inj (he.symm.trans hc)
  unfold isTrue at hfalse
  cases hs : h.scalar e with
  | error fault => rw [hs] at hfalse; cases hfalse
  | ok s =>
    rw [hs] at hfalse
    refine ⟨s, rfl, ?_⟩
    cases hr : s.ref with
    | none => rfl
    | some target =>
      have htrue : s.isTrue = true := by rw [Scalar.isTrue, hr]
      exact absurd (htrue.symm.trans (Except.ok.inj hfalse)) nofun

theorem Quiet.ne_of_className (hq : h.Quiet) (he : h.errorCell = .ok e)
    (hclass : h.className c = .ok (some className)) : c ≠ e := by
  rintro rfl
  -- a false scalar is no reference, and only references have a class
  obtain ⟨s, hs, href⟩ := hq.no_ref he
  obtain ⟨x, hx, hcontent⟩ := scalar_eq_ok_iff.1 hs
  have hkind := kind_of_className hclass
  rw [Heap.kind, cell_ok hx] at hkind
  have hkind : x.content.kind = .ref := Except.ok.inj hkind
  have hname := refName_scalar href
  rw [← hcontent, hkind] at hname
  exact absurd hname (by decide)

theorem Rewritten.className_ok (hw : Rewritten e h h') (hq : h.Quiet) (hu : Unlisted e h) (hs : h.Sound σ)
    (hs' : h'.Sound τ) (hc : c ∈ σ) (hc' : c ∈ τ) (hclass : h.className c = .ok (some className)) :
    h'.className c = .ok (some className) :=
  (hw.className hs hs' (hq.ne_of_className hu.errorCell hclass) (hs.isLive hc) (hs'.isLive hc')).trans hclass

/-! ## A sub that returns one value -/

theorem run_invoke_single {body : Proc (List CellId)} (hclear : clearError.run h = (.ok (), h₁))
    (hbody : (body.run call).run { heap := h₁ } = (.ok [c], f)) (hs : f.heap.Sound (f.temporaries ++ σ))
    (hc : f.heap.scalar c = .ok s) : ∃ v h', (invoke call body .list).run h = (.ok [v], h') ∧
      f.heap.Firm Unchanged h' ∧ h'.Sound (v :: σ) ∧ h'.scalar v = .ok s := by
  obtain ⟨v, h₂, hcopy, hg, hs₂, hv, -⟩ := run_copy hs hc
  have hcopies : (copyOut (.ok [c])).run f.heap = (.ok [v], h₂) := by
    rw [copyOut, List.mapM_cons, run_bind_ok hcopy]
    rfl
  have hperm : (v :: (f.temporaries ++ σ)).Perm (f.temporaries.reverse ++ v :: σ) :=
    ((f.temporaries.reverse_perm.symm.append_right σ).cons v).trans List.perm_middle.symm
  obtain ⟨_, h', hrelease, -, hs'⟩ := gives_releaseAll f.temporaries.reverse h₂ _ (hs₂.perm hperm)
  have hfirm : h₂.Firm Unchanged h' := by
    have hkeeps : Preserves (h₂.Firm Unchanged) (releaseAll f.temporaries.reverse) :=
      preserves_releaseAll h₂ f.temporaries.reverse
    have := hkeeps h₂ (Grows.refl h₂).firm
    rwa [hrelease] at this
  refine ⟨v, h', ?_, hg.firm.unchanged hfirm, hs', hfirm.scalar_ok hv (fun _ hy => hy)
    (hs'.isLive (.head _))⟩
  rw [invoke_eq, run_bind_ok hclear, run_get_bind, hbody]
  dsimp only
  rw [run_set_bind, run_bind_ok (run_attempt ..), hcopies, run_bind_ok hrelease]
  rfl

/-! ## The body of `can` -/

/-- What `can` ends with in its frame, once it was told what is found. -/
def canEnd (found : Option CellId) : Proc (List CellId) :=
  match found with
  | some code => return [code]
  | none => do return [← Proc.perform .newUndef]

theorem run_canEnd_some (d : CellId) (f : Frame) : ((canEnd (some d)).run call).run f = (.ok [d], f) := rfl

theorem run_canEnd_none (f : Frame) : ((canEnd none).run call).run f =
    (.ok [(f.heap.allocate (.scalar .undef)).1],
      ⟨(f.heap.allocate (.scalar .undef)).2, (f.heap.allocate (.scalar .undef)).1 :: f.temporaries⟩) := by
  have hnew : (Frame.perform call .newUndef).run f = (.ok (f.heap.allocate (.scalar .undef)).1,
      ⟨(f.heap.allocate (.scalar .undef)).2, (f.heap.allocate (.scalar .undef)).1 :: f.temporaries⟩) := rfl
  rw [canEnd, Proc.run_bind, run_bind_ok ((Proc.run_perform _ f).trans hnew)]
  rfl

theorem run_can {o : Option CellId} {f' : Frame} (f : Frame)
    (hclass : f.heap.className c = .ok (some className)) (hmethod : f.heap.toText a = .ok method)
    (hcan : (Frame.perform call (.can className method)).run f = (.ok o, f')) :
    ((Universal.can ⟨name, [c, a], context⟩).run call).run f = ((canEnd o).run call).run f' := by
  have hclassOf : (Frame.perform call (.classOf c)).run f = (.ok (some className), f) := by
    change (Except.ok (f.heap.className c).toOption.join, f) = _
    rw [hclass]
    rfl
  have htextOf : (Frame.perform call (.textOf a)).run f = (.ok method, f) := by
    change (Except.ok ((f.heap.toText a).toOption.getD ""), f) = _
    rw [hmethod]
    rfl
  have hfirst : ((Universal.classOf c).run call).run f = (.ok className, f) := by
    rw [Universal.classOf, Proc.run_bind, run_bind_ok ((Proc.run_perform _ f).trans hclassOf)]
    rfl
  have hsecond : ((Proc.perform (.textOf a)).run call).run f = (.ok method, f) :=
    (Proc.run_perform _ f).trans htextOf
  have hthird : ((Proc.perform (.can className method)).run call).run f = (.ok o, f') :=
    (Proc.run_perform _ f).trans hcan
  have hbody : Universal.can ⟨name, [c, a], context⟩ = (do
      let className ← Universal.classOf c
      let method ← Proc.perform (.textOf a)
      canEnd (← Proc.perform (.can className method))) := rfl
  rw [hbody, Proc.run_bind, run_bind_ok hfirst, Proc.run_bind, run_bind_ok hsecond, Proc.run_bind,
    run_bind_ok hthird]

/-- What a call of `can` returns for what is found. -/
def canScalar (found : Option CellId) : Scalar := found.elim .undef .ofRef

theorem Sound.run_canBody (call : Target CellId → List CellId → HeapM (List CellId)) (name : String)
    (context : Context) (hs : h.Sound σ) (hclass : h.className c = .ok (some className))
    (hmethod : h.toText a = .ok method) :
    ∃ r f, ((Universal.can ⟨name, [c, a], context⟩).run call).run { heap := h } = (.ok [r], f) ∧
      h.Grows f.heap ∧ f.heap.Sound (f.temporaries ++ σ) ∧
      f.heap.scalar r = .ok (canScalar (h.resolveMethod className method)) := by
  have hfound : (Frame.perform call (.can className method)).run { heap := h } =
      (match h.resolveMethod className method with
        | some d => some <$> Frame.newRef d
        | none => return none : FrameM (Option CellId)).run { heap := h } := rfl
  cases hm : h.resolveMethod className method with
  | none =>
    rw [hm] at hfound
    let undef := h.allocate (.scalar .undef)
    exact ⟨undef.1, ⟨undef.2, [undef.1]⟩,
      (run_can ⟨h, []⟩ hclass hmethod hfound).trans (run_canEnd_none _), grows_allocate h _,
      Sound.allocate hs, scalar_allocate h .undef⟩
  | some d =>
    rw [hm] at hfound
    obtain ⟨_, hname⟩ := symbol?_of_resolveMethod hm
    obtain ⟨x, _, _, hx, -⟩ := hs.code_of_symbol? hname
    obtain ⟨_, g, hretain, -, hs'⟩ := gives_retain (isLive_of_cell? hx) σ hs
    have hg := retain_grows h d
    rw [hretain] at hg
    let ref := g.allocate (.scalar (.ofRef d))
    have hnew : (Heap.newRef d).run h = (.ok ref.1, ref.2) := run_bind_ok hretain
    have horFault : (Frame.orFault (Heap.newRef d)).run { heap := h } = (.ok ref.1, { heap := ref.2 }) := by
      rw [Frame.orFault, run_bind_ok (Frame.run_onHeap _ _), hnew]
      rfl
    have hcan : (some <$> Frame.newRef d).run { heap := h } = (.ok (some ref.1), ⟨ref.2, [ref.1]⟩) := by
      rw [map_eq_pure_bind, Frame.newRef, bind_assoc, run_bind_ok horFault]
      rfl
    exact ⟨ref.1, ⟨ref.2, [ref.1]⟩,
      (run_can ⟨h, []⟩ hclass hmethod (hfound.trans hcan)).trans (run_canEnd_some _ _),
      hg.trans (grows_allocate g _), Sound.allocate hs', scalar_allocate g (.ofRef d)⟩

/-! ## Calls of `can` -/

/-- The class has the sub `can` that all classes have. -/
def HasCan (h : Heap) (className : String) : Prop :=
  ∃ u x name, h.resolveMethod className "can" = some u ∧ h.cell? u = some x ∧
    x.content = .code name Universal.can

theorem Unlisted.rewritten (hu : Unlisted e h) (hq : h.Quiet) (hs' : h'.Sound τ)
    (hf : h.Firm Unchanged h') : Rewritten e h h' := by
  obtain ⟨s, hscalar, href⟩ := hq.no_ref hu.errorCell
  have hlive : h'.isLive e := hs'.isLive_errorCell ((errorCell_congr hf.symbols).trans hu.errorCell)
  have hrefl : h.Firm (Besides e) h := firm_refl (fun _ _ _ => rfl) h
  exact ⟨hrefl.unchanged hf, ⟨s, hscalar, href⟩, s, hf.scalar_ok hscalar (fun _ hy => hy) hlive, href⟩

/-- A call of `can` on an object changes nothing but the error variable, which it empties, and returns
what the method is resolved to. -/
theorem Sound.run_callCan (depth : Nat) (hs : h.Sound σ) (hu : Unlisted e h) (hq : h.Quiet) (hc : c ∈ σ)
    (ha : a ∈ σ) (hae : a ≠ e) (hclass : h.className c = .ok (some className))
    (hmethod : h.toText a = .ok method) (hcan : h.HasCan className) :
    ∃ v h', (callWithin (depth + 1) (.method c "can") [a] .list).run h = (.ok [v], h') ∧
      h'.Sound (v :: σ) ∧ Rewritten e h h' ∧ h'.Quiet ∧
      h'.scalar v = .ok (canScalar (h.resolveMethod className method)) := by
  obtain ⟨u, x, name, hresolve, hx, hcontent⟩ := hcan
  -- the sub starts with an empty `$@`, which neither the object nor the name of the method depends on
  obtain ⟨h₁, hclear, -, hs₁, hf₁, hempty⟩ := run_clearError hs hu.errorCell
  have hw₁ : Rewritten e h h₁ := ⟨hf₁, hq.no_ref hu.errorCell, _, hempty, rfl⟩
  have hclass₁ := hw₁.className_ok hq hu hs hs₁ hc hc hclass
  have hmethod₁ : h₁.toText a = .ok method :=
    (hw₁.toText hs hs₁ hae (hs.isLive ha) (hs₁.isLive ha)).trans hmethod
  obtain ⟨r, f, hbody, hg, hs₂, hr⟩ := hs₁.run_canBody
    (fun target args => callWithin depth target args .list) name .list hclass₁ hmethod₁
  obtain ⟨v, h', hinvoke, hf', hs', hv⟩ := run_invoke_single hclear hbody hs₂ hr
  have hu₁ : h₁.errorCell = .ok e := (errorCell_congr hf₁.symbols).trans hu.errorCell
  have hq₁ : h₁.Quiet := ⟨e, hu₁, isTrue_ok hempty⟩
  have hfirm : h₁.Firm Unchanged h' := hg.firm.unchanged hf'
  have hlive : h'.isLive e := hs'.isLive_errorCell ((errorCell_congr hfirm.symbols).trans hu₁)
  have hw : Rewritten e h h' := ⟨hf₁.unchanged hfirm, hw₁.before, _,
    hfirm.scalar_ok hempty (fun _ hy => hy) hlive, rfl⟩
  refine ⟨v, h', ?_, hs', hw, hfirm.quiet hq₁ hs' fun _ _ _ _ hy => hy, ?_⟩
  · have hfind : (resolve (.method c "can")).run h = (.ok u, h) := by
      have hplain : h.methodOf className "can" = some u := hresolve
      rw [run_resolve_method hclass, hplain]
    rw [callWithin_succ, run_bind_ok hfind, run_bind_ok (by rw [run_query, cell_ok hx]), hcontent]
    exact hinvoke
  · rw [hv, hw₁.resolveMethod hs hs₁ hu]

end Heap

end Embedding
