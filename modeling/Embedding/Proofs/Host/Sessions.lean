import Embedding.Proofs.Host.Calls
import Embedding.Proofs.Host.Worlds

/-!
# Accounts of sessions

Starting an interpreter leaves no handle behind, whether it succeeds or fails at one of its steps.
-/

namespace Embedding

open HostM (holding)

variable {may : Permission} {I : World → List Handle → Prop} {b : List Handle}
  {w w' : World} {s : SessionId}

theorem accounts_ensureLive (s : SessionId) (operation : String) :
    Accounts I b (HostM.ensureLive s operation) [] fun _ => [] := by
  intro w σ _ hI
  cases hr : (w.session s).stage.refusal operation with
  | none => exact ends_of_run (by rw [run_ensureLive, hr]) hI
  | some e =>
    exact ends_of_run (by rw [run_ensureLive, hr]) (by simpa [hostStakes, refusal_handles hr])

theorem run_ensureReady (hstage : (w.session s).stage = .initialized) (operation : String) :
    (s.ensureReady operation).run w = (.ok (), w) := by
  have hlive : (HostM.ensureLive s operation).run w = (.ok (), w) := by
    rw [run_ensureLive, hstage]
    rfl
  rw [SessionId.ensureReady, HostM.session, bind_assoc, run_get_bind, pure_bind, hstage]
  exact hlive

/-! ## The start -/

theorem Dealing.accounts_require (hdealing : Dealing may I) [Reads may] [Free may s] (package : String) :
    Accounts I b (s.require package) [] fun _ => [] := by
  unfold SessionId.require
  refine (hdealing.about (.require package) (Free.free _ rfl) rfl rfl).attempt.bind fun r _ _ _ => ?_
  rcases r with e | _
  · cases e with
    | runtime message value =>
      exact (hdealing.accounts_release _).bind fun _ _ _ _ => accounts_throw _
    | _ => exact accounts_throw _
  · exact accounts_pure rfl

/-- What holds while an interpreter runs, until a package that cannot be loaded ends it. -/
theorem Dealing.ends_preload {J : World → List Handle → Prop} (hrunning : Dealing may J)
    [Reads may] [Free may s] (habandon : ∀ {w hs}, J w hs → Ends s.abandon w fun _ w' => I w' hs)
    {hs : List Handle} : ∀ (packages : List String) {w : World}, J w hs →
      Ends (s.preload packages) w fun r w' => match r with
        | .ok _ => J w' hs
        | .error e => I w' (e.handles ++ hs)
  | [], _, hJ => hJ
  | package :: packages, w, hJ => by
    have hrequire : Accounts J [] (s.require package) [] fun _ => [] :=
      hrunning.accounts_require package
    have hended := hrequire w hs (List.nil_subset hs) hJ
    unfold SessionId.preload Ends
    rw [run_bind_ok (HostM.run_attempt _ w)]
    unfold Ends at hended
    generalize (s.require package).run w = p at hended ⊢
    obtain ⟨e | _, w₁⟩ := p
    · exact habandon hended
    · exact ends_preload hrunning habandon packages hended

/-- A start goes on from the launch of the interpreter to the packages that are loaded first. -/
theorem Dealing.ends_start {J : World → List Handle → Prop} (hrunning : Dealing may J)
    [Reads may] [Free may s] (hdone : ∀ {w hs}, J w hs → I w hs)
    (habandon : ∀ {w hs}, J w hs → Ends s.abandon w fun _ w' => I w' hs) {hs : List Handle}
    (hlaunch : (w.session s).stage = .uninitialized → Ends (do s.takeClaim; s.construct) w
      fun r w' => match r with
        | .ok _ => J w' hs
        | .error e => I w' (e.handles ++ hs))
    (hI : I w hs) : Ends s.start w fun r w' => I w' (hostStakes (fun _ => []) r ++ hs) := by
  unfold SessionId.start HostM.session Ends
  rw [bind_assoc, run_get_bind, pure_bind]
  cases hstage : (w.session s).stage with
  | initialized => exact hI
  | shutDown => exact hI
  | uninitialized =>
    rw [← bind_assoc]
    have hpreload {w₁ : World} (packages : List String) (hJ : J w₁ hs) : Ends (s.preload packages) w₁
        fun r w' => I w' (hostStakes (fun _ => []) r ++ hs) := by
      refine (hrunning.ends_preload habandon packages hJ).mono fun r _ h => ?_
      cases r with
      | ok _ => exact hdone h
      | error e => exact h
    exact (hlaunch hstage).bind (fun _ _ hJ => hpreload _ hJ) fun _ _ h => h

theorem ends_takeClaim {hs : List Handle} (hI : I w hs)
    (hclaim : I { w.update s fun session => { session with claims := true } with claimed := true } hs) :
    Ends s.takeClaim w fun r w' => I w' (hostStakes (fun _ => []) r ++ hs) ∧
      (w'.session s).stage = (w.session s).stage := by
  unfold SessionId.takeClaim HostM.session Ends
  rw [bind_assoc, run_get_bind, pure_bind]
  split
  · exact ⟨hI, rfl⟩
  · rw [run_get_bind]
    split
    · exact ⟨hI, rfl⟩
    · exact ⟨hclaim, World.session_update_keeps Session.stage fun _ => rfl⟩

/-- What goes on through the steps of a start goes on through the start. -/
theorem Dealing.ends_start_of_steps (hdealing : Dealing may I) [Reads may]
    [Free may s] {hs : List Handle}
    (hclaim : ∀ {w hs}, I w hs →
      I { w.update s fun session => { session with claims := true } with claimed := true } hs)
    (hconstruct : ∀ {w hs}, (w.session s).stage = .uninitialized → I w hs →
      Ends s.construct w fun r w' => I w' (hostStakes (fun _ => []) r ++ hs))
    (habandon : ∀ {w hs}, I w hs → Ends s.abandon w fun _ w' => I w' hs)
    (hI : I w hs) : Ends s.start w fun r w' => I w' (hostStakes (fun _ => []) r ++ hs) := by
  refine hdealing.ends_start (fun hI => hI) habandon (fun hstage => ?_) hI
  refine (ends_takeClaim hI (hclaim hI)).bind (fun _ w' h => ?_) fun _ _ h => h.1
  exact (hconstruct (h.2.trans hstage) h.1).mono fun r _ hI => by cases r <;> exact hI

theorem function_session {name : String} {c : Callable}
    (hrun : (s.function name).run w = (.ok c, w')) : c.anchor.session = s := by
  obtain ⟨_, w₁, -, hrun⟩ := run_bind_eq_ok hrun
  exact lookUpSub_session hrun

namespace Affairs

variable (haffairs : Affairs may I) [Glances may] [Free may s]
include haffairs

omit [Glances may] in
theorem accounts_start : Accounts I b s.start [] fun _ => [] :=
  fun _ _ _ hI => haffairs.start inferInstance hI

omit [Glances may] in
theorem accounts_ensureReady (operation : String) :
    Accounts I b (s.ensureReady operation) [] fun _ => [] := by
  unfold SessionId.ensureReady HostM.session
  rw [bind_assoc]
  refine Accounts.get fun w => ?_
  rw [pure_bind]
  dsimp only
  split
  · exact haffairs.accounts_start.bind fun _ _ _ _ => accounts_ensureLive s operation
  · exact accounts_ensureLive s operation

/-! ## Operations of a session -/

omit [Glances may] in
theorem accounts_ready {α : Type} {operation : String} {x : HostM α} {given : α → List Handle}
    (hx : Accounts I b x [] given) :
    Accounts I b (do s.ensureReady operation; x) [] given :=
  (haffairs.accounts_ensureReady operation).bind fun _ _ _ _ => hx

theorem accounts_load (package : String) : Accounts I b (s.load package) [] fun _ => [] := by
  refine haffairs.accounts_ready ((haffairs.accounts_require package).bind fun _ _ _ _ => ?_)
  exact fun w σ _ hI => haffairs.bindNamespace inferInstance hI

theorem accounts_getGlobal (name : String) : Accounts I b (s.getGlobal name) [] Value.handles :=
  haffairs.accounts_ready (haffairs.accounts_readGlobal name)

theorem accounts_setGlobal (name : String) (v : Value)
    [Turns may (v.walked (Name.parseGlobal name).1)] :
    Accounts I v.handles (s.setGlobal name v) [] fun _ => [] :=
  haffairs.accounts_ready (haffairs.accounts_writeGlobal name v)

theorem accounts_eval (source : String) :
    Accounts I b (s.eval source) [] Value.handlesOfItems :=
  haffairs.accounts_ready ((haffairs.about (.eval source .list) (Free.free _ rfl) rfl rfl).bind fun results _ _ _ =>
    haffairs.holding results ((haffairs.accounts_valuesOf results).mono (List.subset_append_left ..)))

theorem accounts_function (name : String) : Accounts I b (s.function name) [] fun c => [c.anchor] :=
  haffairs.accounts_ready (haffairs.accounts_lookUpSub name)

theorem accounts_sessionCall (name : String) (args : List Value) :
    Accounts I (Value.handlesOfItems args) (s.call name args) [] Value.handlesOfItems :=
  haffairs.accounts_callVia (haffairs.accounts_function name) function_session fun c _ =>
    haffairs.accounts_call c args

theorem accounts_toForeign (v : Value) :
    Accounts I v.handles (s.toForeign v) [] fun h => [h] :=
  haffairs.accounts_ready (haffairs.accounts_newCell v)

omit [Free may s] in
theorem accounts_toHost (h : Handle) : Accounts I [h] (s.toHost h) [] Value.handles := by
  unfold SessionId.toHost
  split
  · exact haffairs.accounts_value h
  · exact accounts_throw _

omit haffairs [Glances may] [Free may s] in
theorem run_ready_made {α : Type} {operation : String} {x : HostM Handle} {f : Handle → α} {a : α}
    (hrun : (do s.ensureReady operation; return f (← x) : HostM α).run w = (.ok a, w')) :
    ∃ h w₁ w₂, x.run w₁ = (.ok h, w₂) ∧ a = f h := by
  obtain ⟨_, w₁, -, hrun⟩ := run_bind_eq_ok hrun
  obtain ⟨h, w₂, hx, hrun⟩ := run_bind_eq_ok hrun
  cases hrun
  exact ⟨h, w₁, w', hx, rfl⟩

theorem accounts_newArray (items : List Value) :
    Accounts I b (s.newArray items) (Value.handlesOfItems items) fun a => [a.cell] := by
  have harray : Accounts I (Value.handlesOfItems items ++ b) (do
      s.ensureReady "new_array"
      return ⟨← cross s "new_array" .newArray⟩) [] fun a : ArrayView => [a.cell] :=
    haffairs.accounts_ready ((haffairs.about .newArray (Free.free _ rfl) rfl rfl).bind fun _ _ _ _ => accounts_pure rfl)
  refine (haffairs.orRelease (Value.handlesOfItems items) harray).bind fun a _ _ hrun => ?_
  have hsession : a.cell.session = s := by
    obtain ⟨cell, w₁, w₂, hcell, rfl⟩ := run_ready_made (HostM.orRelease_ok hrun)
    exact crossWith_session hcell cell (.head _)
  have : Free may a.cell.session := by rw [hsession]; infer_instance
  have hfill : Accounts I b (HostM.orRelease [a.cell] (a.pushAll items)) _ _ :=
    haffairs.orRelease [a.cell] ((haffairs.accounts_arrayPushAll a items).mono (List.subset_append_left ..))
  exact (haffairs.weaken hfill List.perm_append_comm fun _ _ _ _ => .refl _).bind fun _ _ _ _ =>
    accounts_pure rfl

theorem accounts_newHash (entries : List (String × Value)) :
    Accounts I b (s.newHash entries) (Value.handlesOfEntries entries) fun h => [h.cell] := by
  have hhash : Accounts I (Value.handlesOfEntries entries ++ b) (do
      s.ensureReady "new_hash"
      return ⟨← cross s "new_hash" .newHash⟩) [] fun h : HashView => [h.cell] :=
    haffairs.accounts_ready ((haffairs.about .newHash (Free.free _ rfl) rfl rfl).bind fun _ _ _ _ => accounts_pure rfl)
  refine (haffairs.orRelease (Value.handlesOfEntries entries) hhash).bind fun h _ _ hrun => ?_
  have hsession : h.cell.session = s := by
    obtain ⟨cell, w₁, w₂, hcell, rfl⟩ := run_ready_made (HostM.orRelease_ok hrun)
    exact crossWith_session hcell cell (.head _)
  have : Free may h.cell.session := by rw [hsession]; infer_instance
  have hfill : Accounts I b (HostM.orRelease [h.cell] (h.setAll entries)) _ _ :=
    haffairs.orRelease [h.cell] ((haffairs.accounts_hashSetAll h entries).mono (List.subset_append_left ..))
  exact (haffairs.weaken hfill List.perm_append_comm fun _ _ _ _ => .refl _).bind fun _ _ _ _ =>
    accounts_pure rfl

omit [Free may s]

/-! ## Operations of a namespace -/

theorem accounts_namespaceMethod (p : Namespace) [Free may p.session] (name : String) :
    Accounts I b (p.method name) [] fun c => [c.anchor] :=
  (haffairs.about (.newBytes (Utf8.encode p.name) true) (Free.free _ (Request.isTextual_encode p.name))
    rfl rfl).bind fun _ _ _ _ => accounts_pure rfl

theorem accounts_namespaceCall (p : Namespace) [Free may p.session] (name : String) (args : List Value) :
    Accounts I (Value.handlesOfItems args) (p.call name args) [] Value.handlesOfItems :=
  haffairs.accounts_callVia (haffairs.accounts_lookUpSub _) lookUpSub_session fun c _ =>
    haffairs.accounts_call c args

theorem accounts_namespaceCallMethod (p : Namespace) [Free may p.session] (name : String) (args : List Value) :
    Accounts I (Value.handlesOfItems args) (p.callMethod name args) [] Value.handlesOfItems :=
  haffairs.accounts_callVia (haffairs.accounts_namespaceMethod p name) namespaceMethod_session
    fun c _ => haffairs.accounts_call c args

theorem accounts_namespaceConstruct (p : Namespace) [Free may p.session] (args : List Value) :
    Accounts I (Value.handlesOfItems args) (p.construct args) [] Value.handles :=
  haffairs.accounts_callVia (haffairs.accounts_namespaceMethod p "new") namespaceMethod_session
    fun c _ => haffairs.accounts_callOne c args

end Affairs

end Embedding
