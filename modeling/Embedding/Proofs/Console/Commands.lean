import Embedding.Console.Run
import Embedding.Proofs.Console.Accounts

/-!
# Accounts of commands

A command hands over what is in its product. Commands that change registers are the exception, and
are accounted for together with the registers.
-/

namespace Embedding

open Console ConsoleM
open HostM (holding)

variable {α : Type} {I : World → List Handle → Prop} {b : List Handle}

theorem productHandles_value (key : String) (reply : Reply) (v : Value) :
    ({ reply, items := [(key, .value v)] } : Product).handles = v.handles := by
  simp [Product.handles, Item.handles]

theorem productHandles_indexed (vs : List Value) (n : Nat) :
    ((vs.zipIdx n).map fun (v, index) => (s!".{index}", Item.value v)).flatMap
      (fun entry => entry.2.handles) = Value.handlesOfItems vs := by
  induction vs generalizing n with
  | nil => rfl
  | cons v vs ih =>
    rw [List.zipIdx_cons, List.map_cons, List.flatMap_cons, ih]
    rfl

namespace Books

variable (hbooks : Books I)
include hbooks

theorem accounts_ofValue (v : Value) :
    Accounts I b (Product.ofValue v) v.handles Product.handles := by
  have hview := (Accounts.mono (hbooks.accounts_view v) (List.subset_append_left _ b)).own
    (unfailing_view v)
  exact hview.bind fun _ _ _ _ => accounts_pure (productHandles_value ..)

theorem accounts_ofStep (key : List View) (v : Value) :
    Accounts I b (Product.ofStep key v) v.handles Product.handles := by
  have hview := (Accounts.mono (hbooks.accounts_view v) (List.subset_append_left _ b)).own
    (unfailing_view v)
  exact hview.bind fun _ _ _ _ => accounts_pure (productHandles_value ..)

theorem accounts_ofValues (vs : List Value) :
    Accounts I b (Product.ofValues vs) (Value.handlesOfItems vs) Product.handles := by
  have hview := (Accounts.mono (hbooks.accounts_viewItems vs) (List.subset_append_left _ b)).own
    (unfailing_viewItems vs)
  exact hview.bind fun _ _ _ _ => accounts_pure (productHandles_indexed vs 0)

theorem accounts_ofOption (v : Option Value) :
    Accounts I b (Product.ofOption v) (Value.handlesOfItems v.toList) Product.handles := by
  have hview := (Accounts.mono (hbooks.accounts_viewItems v.toList) (List.subset_append_left _ b)).own
    (unfailing_viewItems v.toList)
  refine hview.bind fun _ _ _ _ => accounts_pure ?_
  cases v <;> simp [Product.handles, Item.handles, Value.handlesOfItems]

theorem lends_value_of {x : HostM Value} (hx : Accounts I b x [] Value.handles) :
    Lends I b (act (x >>= Product.ofValue)) [] Product.handles :=
  lends_act (hx.bind fun v _ _ _ => hbooks.accounts_ofValue v)

theorem lends_values_of {x : HostM (List Value)} (hx : Accounts I b x [] Value.handlesOfItems) :
    Lends I b (act (x >>= Product.ofValues)) [] Product.handles :=
  lends_act (hx.bind fun vs _ _ _ => hbooks.accounts_ofValues vs)

theorem lends_option_of {x : HostM (Option Value)}
    (hx : Accounts I b x [] fun v => Value.handlesOfItems v.toList) :
    Lends I b (act (x >>= Product.ofOption)) [] Product.handles :=
  lends_act (hx.bind fun v _ _ _ => hbooks.accounts_ofOption v)

omit hbooks in
theorem lends_shown {x : HostM α} {f : α → Product} {taken : List Handle}
    (hx : Accounts I b x taken fun _ => []) (hf : ∀ a, (f a).handles = []) :
    Lends I b (do return f (← act x)) taken Product.handles :=
  (lends_act hx).bind fun a _ _ _ => lends_pure (hf a)

omit hbooks in
theorem lends_unit {x : ConsoleM Unit} (hx : Lends I b x [] fun _ => []) :
    Lends I b (do x; return .unit) [] Product.handles :=
  hx.bind fun _ _ _ _ => lends_pure rfl

theorem lends_withValue {t : Term} {x : Value → HostM α} {given : α → List Handle}
    (hx : ∀ v, Accounts I (v.handles ++ b) (x v) [] given) :
    Lends I b (withValue t x) [] given :=
  (lends_value hbooks t).bind fun v _ _ _ => lends_act (hbooks.holding v.handles (hx v))

theorem lends_withValues {ts : List Term} {x : List Value → HostM α} {given : α → List Handle}
    (hx : ∀ vs, Accounts I (Value.handlesOfItems vs ++ b) (x vs) [] given) :
    Lends I b (withValues ts x) [] given :=
  (lends_values hbooks ts).bind fun vs _ _ _ =>
    lends_act (hbooks.holding (Value.handlesOfItems vs) (hx vs))

theorem lends_storing {t : Term} {x : Value → HostM Unit}
    (hx : ∀ v, Accounts I b (x v) v.handles fun _ => []) :
    Lends I b (do
      let v ← value t
      act (x v)
      return .unit) [] Product.handles :=
  (lends_value hbooks t).bind fun v _ _ _ => (lends_act (hx v)).bind fun _ _ _ _ => lends_pure rfl

/-! ## Commands that leave the registers alone -/

omit hbooks in
theorem lends_needing {β : Type} {part : Item → Option α} {name : String} {f : α → ConsoleM β}
    {after : β → List Handle} (own : α → List Handle)
    (hpart : ∀ item a, part item = some a → item.handles = own a)
    (hf : ∀ a, Lends I (own a ++ b) (f a) [] after) :
    Lends I b (need name part >>= f) [] after :=
  lends_need fun item a ha => hpart item a ha ▸ hf a

theorem lends_sessionCommand (s : SessionId) (command : SessionCommand) :
    Lends I b (command.run s) [] Product.handles := by
  unfold SessionCommand.run
  refine Lends.get fun c hfixable => ?_
  dsimp only
  split
  · exact lends_skip_bind
  cases command with
  | stage | capabilities | config | listing | liveHandles => exact lends_pure rfl
  | start => exact lends_unit (lends_act hbooks.accounts_start)
  | shutDown => exact lends_unit (lends_act fun _ _ _ hI => hbooks.shutDown inferInstance hI)
  | disown => exact lends_unit (lends_modify fun _ _ hI => hbooks.disown inferInstance hI)
  | load package =>
    exact (lends_act (hbooks.accounts_load package)).bind fun _ _ _ _ => lends_pure rfl
  | get name => exact hbooks.lends_value_of (hbooks.accounts_getGlobal name)
  | set name v =>
    exact lends_unit (hbooks.lends_withValue fun v =>
      (hbooks.accounts_setGlobal name v).mono (List.subset_append_left ..))
  | eval source => exact hbooks.lends_values_of (hbooks.accounts_eval source)
  | function name =>
    exact lends_act ((hbooks.accounts_function name).bind fun _ _ _ _ => hbooks.accounts_ofValue _)
  | call name args =>
    exact hbooks.lends_withValues fun args =>
      ((hbooks.accounts_sessionCall name args).bind fun _ _ _ _ =>
        (hbooks.accounts_ofValues _)).mono (List.subset_append_left ..)
  | toForeign v =>
    exact (hbooks.lends_withValue fun v =>
      (hbooks.accounts_toForeign v).mono (List.subset_append_left ..)).bind
        fun _ _ _ _ => lends_pure rfl
  | toHost on =>
    refine lends_needing (fun h => [h]) (fun item h hpart => ?_) fun h => ?_
    · split at hpart <;> cases hpart
      rfl
    · exact hbooks.lends_value_of ((hbooks.accounts_toHost h).mono (List.subset_append_left ..))
  | newArray items =>
    exact (lends_values hbooks items).bind fun vs _ _ _ =>
      lends_act ((hbooks.accounts_newArray vs).bind fun _ _ _ _ => hbooks.accounts_ofValue _)
  | newHash entries =>
    exact (lends_pairs hbooks entries).bind fun entries _ _ _ =>
      lends_act ((hbooks.accounts_newHash entries).bind fun _ _ _ _ => hbooks.accounts_ofValue _)
  | fix operation answer =>
    refine Lends.get fun c' hfixable' => ?_
    rw [if_pos (by simp [hfixable'])]
    exact lends_skip_bind

theorem lends_handleCommand (on : String) (command : HandleCommand) (hkeep : command ≠ .intoRaw) :
    Lends I b (command.run on) [] Product.handles := by
  refine lends_needing (fun h => [h]) (fun item h hpart => ?_) fun h => ?_
  · split at hpart <;> cases hpart
    rfl
  have hon {shape : Shape} {operation : String} (request : Request Handle shape)
      (hglances : request.glances = true) (hcells : request.cells = [h]) :
      Accounts I ([h] ++ b) (cross h.session operation request) [] Answer.stakes :=
    (hbooks.on request hglances hcells).mono (List.subset_append_left ..)
  cases command with
  | refcount => exact lends_shown (hon (.refcount h) rfl rfl) fun _ => rfl
  | kind => exact lends_shown (hon (.kind h) rfl rfl) fun _ => rfl
  | flags => exact lends_shown (hon (.flags h) rfl rfl) fun _ => rfl
  | identity => exact lends_shown (hon (.identity h) rfl rfl) fun _ => rfl
  | intoRaw => exact absurd rfl hkeep

theorem lends_arrayCommand (on : String) (command : ArrayCommand) :
    Lends I b (command.run on) [] Product.handles := by
  refine lends_needing (fun a => [a.cell]) (fun item a hpart => ?_) fun a => ?_
  · split at hpart <;> cases hpart
    rfl
  have hsub : [a.cell] ⊆ [a.cell] ++ b := List.subset_append_left ..
  have hlength := (hbooks.accounts_arrayLength a).mono hsub
  cases command with
  | get index => exact hbooks.lends_value_of ((hbooks.accounts_arrayGet a index).mono hsub)
  | set index v => exact hbooks.lends_storing fun v => (hbooks.accounts_arraySet a index v).mono hsub
  | length => exact lends_shown hlength fun _ => rfl
  | isEmpty => exact lends_shown hlength fun _ => rfl
  | push v => exact hbooks.lends_storing fun v => (hbooks.accounts_arrayPush a v).mono hsub
  | pop => exact hbooks.lends_option_of ((hbooks.accounts_arrayPop a).mono hsub)
  | clear => exact lends_unit (lends_act ((hbooks.accounts_arrayClear a).mono hsub))
  | toList => exact hbooks.lends_values_of ((hbooks.accounts_arrayToList a).mono hsub)
  | cursor =>
    exact (lends_act ((hbooks.accounts_arrayCursor a).mono hsub)).bind fun _ _ _ _ => lends_pure rfl
  | container => exact (hbooks.lends_clone hsub).bind fun _ _ _ _ => lends_pure rfl

theorem lends_hashCommand (on : String) (command : HashCommand) :
    Lends I b (command.run on) [] Product.handles := by
  refine lends_needing (fun h => [h.cell]) (fun item h hpart => ?_) fun h => ?_
  · split at hpart <;> cases hpart
    rfl
  have hsub : [h.cell] ⊆ [h.cell] ++ b := List.subset_append_left ..
  have hlength : Accounts I ([h.cell] ++ b) h.length [] fun _ => [] :=
    (hbooks.on (.hashLength h.cell) rfl rfl).mono hsub
  cases command with
  | get key => exact hbooks.lends_value_of ((hbooks.accounts_hashGet h key).mono hsub)
  | set key v => exact hbooks.lends_storing fun v => (hbooks.accounts_hashSet h key v).mono hsub
  | length => exact lends_shown hlength fun _ => rfl
  | isEmpty => exact lends_shown hlength fun _ => rfl
  | contains key =>
    exact lends_shown ((hbooks.on (.hashContains h.cell key) rfl rfl).mono hsub) fun _ => rfl
  | delete key => exact hbooks.lends_option_of ((hbooks.accounts_hashDelete h key).mono hsub)
  | clear => exact lends_unit (lends_act ((hbooks.upon (.hashClear h.cell) rfl rfl).mono hsub))
  | keys => exact lends_shown ((hbooks.accounts_hashKeys h).mono hsub) fun _ => rfl
  | toDict =>
    exact lends_act (((hbooks.accounts_hashToDict h).mono hsub).bind fun d _ _ _ =>
      hbooks.accounts_ofValue (.mapping d))
  | cursor =>
    exact (lends_act ((hbooks.accounts_hashCursor h).mono hsub)).bind fun _ _ _ _ => lends_pure rfl
  | container => exact (hbooks.lends_clone hsub).bind fun _ _ _ _ => lends_pure rfl

theorem lends_containerCommand (on : String) (command : ContainerCommand) :
    Lends I b (command.run on) [] Product.handles := by
  refine lends_needing (fun c => [c.cell]) (fun item c hpart => ?_) fun c => ?_
  · split at hpart <;> cases hpart
    rfl
  have hsub : [c.cell] ⊆ [c.cell] ++ b := List.subset_append_left ..
  have hlength := (hbooks.accounts_containerLength c).mono hsub
  cases command with
  | get key => exact hbooks.lends_value_of ((hbooks.accounts_containerGet c key).mono hsub)
  | set key v => exact hbooks.lends_storing fun v => (hbooks.accounts_containerSet c key v).mono hsub
  | length => exact lends_shown hlength fun _ => rfl
  | isEmpty => exact lends_shown hlength fun _ => rfl
  | cursor =>
    exact (lends_act ((hbooks.accounts_containerCursor c).mono hsub)).bind
      fun _ _ _ _ => lends_pure rfl
  | equal other =>
    refine lends_needing (fun c => [c.cell]) (fun item c hpart => ?_) fun c' => ?_
    · split at hpart <;> cases hpart
      rfl
    exact lends_shown ((hbooks.accounts_containerEqual c c').mono (by simp)) fun _ => rfl

theorem lends_callableCommand (on : String) (command : CallableCommand) :
    Lends I b (command.run on) [] Product.handles := by
  refine lends_needing (fun c => [c.anchor]) (fun item c hpart => ?_) fun c => ?_
  · split at hpart <;> cases hpart
    rfl
  cases command with
  | call args keywords =>
    cases keywords with
    | none =>
      exact hbooks.lends_withValues fun args =>
        ((hbooks.accounts_call c args).bind fun _ _ _ _ => hbooks.accounts_ofValues _).mono (by simp)
    | some keywords =>
      refine (lends_dict hbooks keywords []).bind fun keywords _ _ _ => ?_
      refine (hbooks.lends_orRelease (Value.handlesOfEntries keywords)
        (lends_values hbooks args)).bind fun args _ _ _ => ?_
      have hcall := (hbooks.accounts_callWithKeywords c args keywords).bind fun vs _ _ _ =>
        hbooks.accounts_ofValues vs
      exact lends_act (hbooks.holding
        (Value.handlesOfItems args ++ Value.handlesOfEntries keywords) (hcall.mono (by simp)))
  | callOne args =>
    exact hbooks.lends_withValues fun args =>
      ((hbooks.accounts_callOne c args).bind fun _ _ _ _ => hbooks.accounts_ofValue _).mono (by simp)
  | info => exact lends_pure rfl

theorem lends_objectCommand (on : String) (command : ObjectCommand) :
    Lends I b (command.run on) [] Product.handles := by
  refine lends_needing (fun o => [o.reference]) (fun item o hpart => ?_) fun o => ?_
  · split at hpart <;> cases hpart
    rfl
  have hsub : [o.reference] ⊆ [o.reference] ++ b := List.subset_append_left ..
  cases command with
  | className => exact lends_pure rfl
  | method name =>
    exact lends_act (((hbooks.accounts_objectMethod o name).mono hsub).bind fun _ _ _ _ =>
      hbooks.accounts_ofValue _)
  | call name args =>
    exact hbooks.lends_withValues fun args =>
      ((hbooks.accounts_objectCall o name args).bind fun _ _ _ _ =>
        hbooks.accounts_ofValues _).mono (by simp)
  | isa parent => exact lends_shown ((hbooks.accounts_isa o parent).mono hsub) fun _ => rfl
  | can name =>
    refine lends_act (((hbooks.accounts_can o name).mono hsub).bind fun r _ _ _ => ?_)
    cases r <;> exact hbooks.accounts_ofOption _
  | identity =>
    exact lends_shown ((hbooks.on (.identity o.reference) rfl rfl).mono hsub) fun _ => rfl

theorem lends_packageCommand (on : String) (command : NamespaceCommand) :
    Lends I b (command.run on) [] Product.handles := by
  refine lends_needing (fun _ => []) (fun item p hpart => ?_) fun p => ?_
  · split at hpart <;> cases hpart
    rfl
  cases command with
  | name => exact lends_pure rfl
  | function symbol =>
    exact lends_act ((hbooks.accounts_lookUpSub _).bind fun _ _ _ _ => hbooks.accounts_ofValue _)
  | call symbol args =>
    exact hbooks.lends_withValues fun args =>
      ((hbooks.accounts_namespaceCall p symbol args).bind fun _ _ _ _ =>
        hbooks.accounts_ofValues _).mono (List.subset_append_left ..)
  | method symbol =>
    exact lends_act ((hbooks.accounts_namespaceMethod p symbol).bind fun _ _ _ _ =>
      hbooks.accounts_ofValue _)
  | callMethod symbol args =>
    exact hbooks.lends_withValues fun args =>
      ((hbooks.accounts_namespaceCallMethod p symbol args).bind fun _ _ _ _ =>
        hbooks.accounts_ofValues _).mono (List.subset_append_left ..)
  | construct args =>
    exact hbooks.lends_withValues fun args =>
      ((hbooks.accounts_namespaceConstruct p args).bind fun _ _ _ _ =>
        hbooks.accounts_ofValue _).mono (List.subset_append_left ..)
  | get symbol => exact hbooks.lends_value_of (hbooks.accounts_readGlobal _)
  | set symbol v =>
    exact lends_unit (hbooks.lends_withValue fun v =>
      (hbooks.accounts_writeGlobal _ v).mono (List.subset_append_left ..))

end Books

end Embedding
