import Embedding.Host.Session
import Embedding.Proofs.Host.Extraction

/-!
# Accounts of calls and globals

Arguments are lent to a call, and the values that it returns are handed over.
-/

namespace Embedding

variable {may : Permission} {I : World → List Handle → Prop} {b : List Handle}
  {w w' : World} {s : SessionId}

theorem createGlobal_session {slot : Slot} {qualified : String} {h : Handle}
    (hrun : (createGlobal s slot qualified).run w = (.ok h, w')) : h.session = s := by
  obtain ⟨o, w₁, hcell, hrun⟩ := run_bind_eq_ok hrun
  cases o with
  | none => cases hrun
  | some c =>
    cases hrun
    exact crossWith_session hcell h (List.mem_cons_self ..)

theorem objectMethod_session {o : ObjectView} {name : String} {c : Callable}
    (hrun : (o.method name).run w = (.ok c, w')) : c.anchor.session = o.reference.session := by
  cases hrun
  rfl

theorem lookUpSub_session {name : String} {c : Callable}
    (hrun : (lookUpSub s name).run w = (.ok c, w')) : c.anchor.session = s := by
  obtain ⟨cell, w₁, hcell, hrun⟩ := run_bind_eq_ok hrun
  cases cell with
  | none => cases hrun
  | some h =>
    cases hrun
    exact crossWith_session hcell h (List.mem_cons_self ..)

theorem namespaceMethod_session {p : Namespace} {name : String} {c : Callable}
    (hrun : (p.method name).run w = (.ok c, w')) : c.anchor.session = p.session := by
  obtain ⟨receiver, w₁, hreceiver, hrun⟩ := run_bind_eq_ok hrun
  cases hrun
  exact crossWith_session hreceiver receiver (List.mem_cons_self ..)

theorem handlesOfItems_flatten_subset (args : List Value) (keywords : Dict Value) :
    Value.handlesOfItems (Callable.flatten args keywords) ⊆
      Value.handlesOfItems args ++ Value.handlesOfEntries keywords := by
  rw [Callable.flatten, handlesOfItems_append]
  refine List.append_subset.2 ⟨List.subset_append_left .., fun a hm => List.mem_append_right _ ?_⟩
  induction keywords with
  | nil => exact hm
  | cons entry keywords ih =>
    obtain ⟨key, v⟩ := entry
    simp only [List.flatMap_cons, List.cons_append, List.nil_append, Value.handlesOfItems,
      Value.handles, Value.handlesOfEntries, List.mem_append] at hm ⊢
    exact hm.imp_right ih

/-- The hashes that are iterated over when a value is assigned to a symbol. -/
def Value.walked : Slot → Value → List Handle
  | .hash, .hash view => [view.cell]
  | _, _ => []

namespace Dealing

variable (hdealing : Dealing may I) [Glances may]
include hdealing

/-! ## Calls -/

theorem accounts_invoke (c : Callable) [Free may c.anchor.session] (args : List Handle)
    (hargs : ∀ h ∈ args, h.session = c.anchor.session) :
    Accounts I (c.anchor :: args) (c.invoke args) [] Value.handlesOfItems := by
  have hvalues : ∀ results : List Handle, Accounts I (c.anchor :: args)
      (HostM.holding results (valuesOf results)) results Value.handlesOfItems := fun results =>
    hdealing.holding results ((hdealing.accounts_valuesOf results).mono (List.subset_append_left ..))
  have hall : ∀ h ∈ c.anchor :: args, h.session = c.anchor.session := by
    rintro h (_ | ⟨_, hm⟩)
    · rfl
    · exact hargs h hm
  unfold Callable.invoke
  cases c with
  | code cell =>
    have : Free may cell.session := inferInstanceAs (Free may (Callable.code cell).anchor.session)
    exact (hdealing.among (.call (.code cell) args .list) (Free.free _ rfl) rfl rfl hall).bind fun results _ _ _ =>
      hvalues results
  | method receiver name =>
    have : Free may receiver.session :=
      inferInstanceAs (Free may (Callable.method receiver name).anchor.session)
    exact (hdealing.among (.call (.method receiver name) args .list) (Free.free _ rfl) rfl rfl hall).bind
      fun results _ _ _ => hvalues results

theorem accounts_call (c : Callable) [Free may c.anchor.session] (args : List Value) :
    Accounts I (c.anchor :: Value.handlesOfItems args) (c.call args) [] Value.handlesOfItems := by
  refine ((hdealing.accounts_newCells args).mono (List.subset_cons_self ..)).bind
    fun cells _ _ hrun => ?_
  refine hdealing.holding cells ((hdealing.accounts_invoke c cells (newCells_session hrun)).mono ?_)
  exact fun h hm => by
    simp only [List.mem_cons, List.mem_append] at hm ⊢
    exact hm.elim (fun h => .inr (.inl h)) .inl

theorem accounts_callWithKeywords (c : Callable) [Free may c.anchor.session]
    (args : List Value) (keywords : Dict Value) :
    Accounts I (c.anchor :: (Value.handlesOfItems args ++ Value.handlesOfEntries keywords))
      (c.callWithKeywords args keywords) [] Value.handlesOfItems := by
  have hflat := handlesOfItems_flatten_subset args keywords
  refine (hdealing.accounts_clone fun _ hm => .tail _ (hflat hm)).bind fun _ _ _ _ => ?_
  refine hdealing.holding _ ((hdealing.accounts_call c (Callable.flatten args keywords)).mono ?_)
  exact fun h hm => by
    simp only [List.mem_cons, List.mem_append] at hm ⊢
    exact hm.elim (fun h => .inr (.inl h)) .inl

theorem accounts_callOne (c : Callable) [Free may c.anchor.session] (args : List Value) :
    Accounts I (c.anchor :: Value.handlesOfItems args) (c.callOne args) [] Value.handles := by
  refine (hdealing.accounts_call c args).bind fun vs _ _ _ => ?_
  cases vs with
  | nil => exact accounts_pure rfl
  | cons v vs =>
    have hrest := (hdealing.accounts_release (b := c.anchor :: Value.handlesOfItems args)
      (Value.handlesOfItems vs)).frame (unfailing_release _) v.handles
    exact (hdealing.weaken hrest List.perm_append_comm fun _ _ _ _ => .refl _).bind
      fun _ _ _ _ => accounts_pure rfl

omit [Glances may] in
theorem accounts_objectMethod (o : ObjectView) (name : String) :
    Accounts I [o.reference] (o.method name) [] fun c => [c.anchor] :=
  hdealing.accounts_cloneOf [o.reference] rfl

omit [Glances may] in
theorem accounts_callVia {α : Type} {x : HostM Callable} {f : Callable → HostM α}
    {given : α → List Handle} (hx : Accounts I b x [] fun c => [c.anchor])
    (hsession : ∀ {c w w'}, x.run w = (.ok c, w') → c.anchor.session = s)
    (hf : ∀ (c : Callable) [Free may c.anchor.session],
      Accounts I (c.anchor :: b) (f c) [] given) [Free may s] :
    Accounts I b (do let c ← x; HostM.holding [c.anchor] (f c)) [] given :=
  hx.bind fun c _ _ hrun =>
    have : Free may c.anchor.session := by rw [hsession hrun]; infer_instance
    hdealing.holding [c.anchor] (hf c)

theorem accounts_objectCall (o : ObjectView) [Free may o.reference.session] (name : String)
    (args : List Value) : Accounts I (o.reference :: Value.handlesOfItems args)
      (o.callMethod name args) [] Value.handlesOfItems :=
  hdealing.accounts_callVia ((hdealing.accounts_objectMethod o name).mono (by simp))
    objectMethod_session fun c _ => (hdealing.accounts_call c args).mono fun _ hm => by
      simp only [List.mem_cons] at hm ⊢
      exact hm.imp_right .inr

theorem accounts_askMethod (o : ObjectView) [Free may o.reference.session]
    (name argument : String) :
    Accounts I [o.reference] (o.askMethod name argument) [] Value.handles :=
  hdealing.accounts_callVia (hdealing.accounts_objectMethod o name) objectMethod_session fun c _ =>
    (hdealing.accounts_callOne c [.text argument]).mono
      (by simp [Value.handlesOfItems, Value.handles])

theorem accounts_isa (o : ObjectView) [Free may o.reference.session] (className : String) :
    Accounts I [o.reference] (o.isa className) [] fun _ => [] :=
  (hdealing.accounts_askMethod o "isa" className).bind fun answer _ _ _ =>
    (hdealing.accounts_release answer.handles).bind fun _ _ _ _ => accounts_pure rfl

theorem accounts_can (o : ObjectView) [Free may o.reference.session] (name : String) :
    Accounts I [o.reference] (o.can name) [] (HostType.option .callable).handles :=
  (hdealing.accounts_askMethod o "can" name).bind fun answer _ _ _ =>
    hdealing.holding answer.handles
      ((accounts_extractOption hdealing.accounts_extractCallable answer).mono
        (List.subset_append_left ..))

/-! ## Globals -/

variable [Free may s]

theorem accounts_globalCell (operation : String) (slot : Slot) (qualified : String)
    (create : Bool) :
    Accounts I b (globalCell s operation slot qualified create) [] Option.toList :=
  hdealing.about (.global slot qualified create) (Free.free _ rfl) rfl rfl

theorem accounts_readGlobal (name : String) :
    Accounts I b (readGlobal s name) [] Value.handles := by
  unfold readGlobal
  refine (hdealing.accounts_globalCell "get_global" _ _ false).bind fun cell _ _ _ => ?_
  split
  · exact (hdealing.accounts_takeValue? cell).map handles_ofOption
  · cases cell <;> exact accounts_pure rfl
  · cases cell <;> exact accounts_pure rfl
  · cases cell <;> exact accounts_pure rfl

theorem accounts_createGlobal (slot : Slot) (qualified : String) :
    Accounts I b (createGlobal s slot qualified) [] fun h => [h] := by
  refine (hdealing.accounts_globalCell "set_global" slot qualified true).bind fun cell _ _ _ => ?_
  cases cell with
  | some h => exact accounts_pure rfl
  | none => exact accounts_throw _

theorem accounts_arrayItems (v : Value) :
    Accounts I v.handles (arrayItems v) [] Value.handlesOfItems := by
  cases v with
  | list items => exact hdealing.accounts_cloneOf (Value.handlesOfItems items) rfl
  | array view => exact hdealing.accounts_arrayToList view
  | nothing => exact accounts_pure rfl
  | _ => exact accounts_throw _

theorem accounts_hashEntries (v : Value) [Turns may (v.walked .hash)] :
    Accounts I v.handles (hashEntries v) [] Value.handlesOfEntries := by
  cases v with
  | mapping entries => exact hdealing.accounts_cloneOf (Value.handlesOfEntries entries) rfl
  | hash view =>
    have : Turns may [view.cell] := inferInstanceAs (Turns may ((Value.hash view).walked .hash))
    exact hdealing.accounts_hashToDict view
  | nothing => exact accounts_pure rfl
  | _ => exact accounts_throw _

theorem accounts_assignGlobal (qualified : String) {source : Handle} (hsource : source.session = s) :
    Accounts I [source] (do
      let target ← createGlobal s .scalar qualified
      HostM.holding [target] (cross s "set_global" (.assign target source))) [] fun _ => [] := by
  refine (hdealing.accounts_createGlobal .scalar qualified).bind fun target _ _ hrun => ?_
  have hassign : Accounts I [target, source] (cross s "set_global" (.assign target source)) []
      Answer.stakes := hdealing.among _ (Free.free _ rfl) rfl rfl (by simp [createGlobal_session hrun, hsource])
  exact hdealing.holding [target] hassign

omit [Glances may] [Free may s] in
theorem accounts_filling {x : HostM Unit} {cell : Handle} {taken : List Handle}
    (hx : Accounts I [cell] x taken fun _ => []) :
    Accounts I b (HostM.holding [cell] x) ([cell] ++ taken) fun _ => [] :=
  hdealing.weaken (hdealing.holding [cell] (hx.mono (List.subset_append_left ..)))
    List.perm_append_comm fun _ _ _ _ => .refl _

/-- A variable is made (`f`) and cleared (`c`), and filled (`p`) if both go well; `g` is its cell. -/
theorem accounts_assignItems {α : Type} {slot : Slot} {qualified : String} {taken : List Handle}
    {f : Handle → α} {g : α → Handle} {c p : α → HostM Unit} (hcell : ∀ h, g (f h) = h)
    (hclear : ∀ h [Free may h.session], Accounts I [h] (c (f h)) [] fun _ => [])
    (hfill : ∀ h [Free may h.session], Accounts I [h] (p (f h)) taken fun _ => []) :
    Accounts I b (do
      let target ← HostM.orRelease taken (do
        let target := f (← createGlobal s slot qualified)
        HostM.orRelease [g target] (c target)
        return target)
      HostM.holding [g target] (p target)) taken fun _ => [] := by
  have htarget : Accounts I (taken ++ b) (do
      let target := f (← createGlobal s slot qualified)
      HostM.orRelease [g target] (c target)
      return target) [] fun target => [g target] := by
    refine (hdealing.accounts_createGlobal slot qualified).bind fun h _ _ hrun => ?_
    have : Free may h.session := by rw [createGlobal_session hrun]; infer_instance
    have hcleared : Accounts I (taken ++ b) (HostM.orRelease [h] (c (f h))) [h] fun _ => [h] :=
      hdealing.orRelease [h] ((hclear h).mono (List.subset_append_left ..))
    dsimp only
    rw [hcell]
    exact hcleared.bind fun _ _ _ _ => accounts_pure (by rw [hcell])
  refine (hdealing.orRelease taken htarget).bind fun target _ _ hrun => ?_
  obtain ⟨h, w₁, hcreate, hrun⟩ := run_bind_eq_ok (HostM.orRelease_ok hrun)
  obtain ⟨_, w₂, -, hrun⟩ := run_bind_eq_ok hrun
  cases hrun
  have : Free may h.session := by rw [createGlobal_session hcreate]; infer_instance
  rw [hcell]
  exact hdealing.accounts_filling (hfill h)

theorem accounts_writeGlobal (name : String) (v : Value)
    [hturns : Turns may (v.walked (Name.parseGlobal name).1)] :
    Accounts I v.handles (writeGlobal s name v) [] fun _ => [] := by
  unfold writeGlobal
  generalize Name.parseGlobal name = symbol at hturns
  obtain ⟨slot, qualified⟩ := symbol
  cases slot
  case scalar =>
    refine (hdealing.accounts_newCell v).bind fun source _ _ hrun => ?_
    exact hdealing.holding [source]
      ((hdealing.accounts_assignGlobal _ (newCell_session hrun)).mono (List.subset_append_left ..))
  case array =>
    exact (hdealing.accounts_arrayItems v).bind fun items _ _ _ =>
      hdealing.accounts_assignItems (f := ArrayView.mk) (g := ArrayView.cell)
        (c := ArrayView.clear) (p := fun target => target.pushAll items) (fun _ => rfl)
        (fun h _ => hdealing.upon (.arrayClear h) rfl rfl) fun h _ =>
          hdealing.accounts_arrayPushAll ⟨h⟩ items
  case hash =>
    exact (hdealing.accounts_hashEntries v).bind fun entries _ _ _ =>
      hdealing.accounts_assignItems (f := HashView.mk) (g := HashView.cell)
        (c := HashView.clear) (p := fun target => target.setAll entries) (fun _ => rfl)
        (fun h _ => hdealing.upon (.hashClear h) rfl rfl) fun h _ =>
          hdealing.accounts_hashSetAll ⟨h⟩ entries
  case code => exact accounts_throw _

theorem accounts_lookUpSub (name : String) :
    Accounts I b (lookUpSub s name) [] fun c => [c.anchor] := by
  refine (hdealing.accounts_globalCell "function" .code _ false).bind fun cell _ _ _ => ?_
  cases cell with
  | some h => exact accounts_pure rfl
  | none => exact accounts_throw _

end Dealing

end Embedding
