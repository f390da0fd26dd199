import Embedding.Proofs.Counts
import Embedding.Proofs.Heap.Contents

/-!
# Setups whose bodies end with live cells

A host that names only cells it holds can ask for nothing that frees a cell under a body. So a setup
is tidy if each of its bodies ends with live cells wherever it runs.
-/

namespace Embedding

variable {setup : Setup}

/-- The runs of an interpreter in which the host names only cells that it holds stakes in. -/
inductive HeldRuns (setup : Setup) : Interpreter → List CellId → Prop
  | start : HeldRuns setup ⟨setup, none⟩ []
  | request {i : Interpreter} {stakes : List CellId} {s : Shape} (request : Request CellId s) :
    HeldRuns setup i stakes → request.cells ⊆ stakes →
    HeldRuns setup (i.perform request).2 (request.settle (i.perform request).1 stakes)
  | destruct {i : Interpreter} {stakes : List CellId} :
    HeldRuns setup i stakes → HeldRuns setup i.destruct []

/-- The native bodies of a setup end with live cells, whatever a host asks that names only cells it
holds. -/
def Setup.Tidy (setup : Setup) : Prop :=
  ∀ {i : Interpreter} {stakes : List CellId} {h : Heap} {s : Shape} (request : Request CellId s),
    HeldRuns setup i stakes → request.cells ⊆ stakes → i.heap = some h → request.EndsLive setup h

theorem mem_of_released? {s : Shape} {request : Request CellId s} {stakes : List CellId}
    (hcells : request.cells ⊆ stakes) (c : CellId) (hc : request.released? = some c) : c ∈ stakes := by
  cases request with
  | release d =>
    cases hc
    exact hcells (.head _)
  | _ => cases hc

theorem HeldRuns.runs {i : Interpreter} {stakes : List CellId} (htidy : setup.Tidy)
    (hrun : HeldRuns setup i stakes) : Runs setup i stakes := by
  induction hrun with
  | start => exact .start
  | request request hrun hcells ih =>
    exact .request request ih (mem_of_released? hcells) fun h hh => htidy request hrun hcells hh
  | destruct _ ih => exact .destruct ih

/-! ## Bodies that always end with live cells -/

section
variable {α : Type} {call : Target CellId → List CellId → HeapM (List CellId)}

/-- Wherever it starts, the procedure ends with live cells. -/
def Proc.EndsLive (call : Target CellId → List CellId → HeapM (List CellId))
    (p : Proc (List CellId)) : Prop :=
  ∀ f : Frame, Ends (p.run call) f fun outcome f' => Heap.LiveEnd outcome f'.heap

/-- The procedure only looks at the frame. -/
def Proc.Looks (call : Target CellId → List CellId → HeapM (List CellId)) (p : Proc α) : Prop :=
  ∀ f : Frame, ∃ a, (p.run call).run f = (.ok a, f)

theorem Proc.Looks.bind {p : Proc α} (hp : p.Looks call) {k : α → Proc (List CellId)}
    (hk : ∀ a, (k a).EndsLive call) : (p >>= k).EndsLive call := by
  intro f
  obtain ⟨a, hrun⟩ := hp f
  unfold Ends
  rw [Proc.run_bind, run_bind_ok hrun]
  exact hk a f

theorem Proc.looks_pure (a : α) : (pure a : Proc α).Looks call := fun _ => ⟨a, rfl⟩

theorem Proc.looks_bind {β : Type} {p : Proc α} (hp : p.Looks call) {k : α → Proc β}
    (hk : ∀ a, (k a).Looks call) : (p >>= k).Looks call := by
  intro f
  obtain ⟨a, hrun⟩ := hp f
  rw [Proc.run_bind, run_bind_ok hrun]
  exact hk a f

theorem Heap.isLive_allocate (h : Heap) (content : Content) :
    (h.allocate content).2.isLive (h.allocate content).1 := by
  rw [Heap.isLive, cell?_allocate, if_pos rfl]
  rfl

theorem Proc.endsLive_create {action : Action .cell} {content : Content}
    (hcreate : Frame.perform call action = Frame.create content) :
    (do return [← Proc.perform action] : Proc (List CellId)).EndsLive call := by
  intro f
  change Ends (((Proc.act action _).run call)) f _
  unfold Ends
  rw [Proc.run_act, hcreate]
  intro c hc
  obtain rfl := List.mem_singleton.1 hc
  exact f.heap.isLive_allocate content

theorem Proc.endsLive_fail (message : String) :
    (Proc.fail message : Proc (List CellId)).EndsLive call :=
  fun f => f.heap.isLive_allocate (.scalar (.ofText message))

theorem Proc.looks_perform {s : Shape} {action : Action s} {g : Frame → Answer CellId s}
    (hread : Frame.perform call action = do return g (← get)) :
    (Proc.perform action).Looks call := by
  intro f
  change ∃ a, ((Proc.act action _).run call).run f = _
  rw [Proc.run_act, hread]
  exact ⟨g f, rfl⟩

/-- The bodies of all subs in the heap have the property. -/
abbrev Heap.AllSubs (B : NativeSub → Prop) : Heap → Prop :=
  AllContents fun content => ∀ name body, content = .code name body → B body

instance {B : NativeSub → Prop} :
    Content.Lasting fun content => ∀ name body, content = .code name body → B body where
  scalar _ := nofun
  array _ := nofun
  glob _ := nofun
  empty := nofun
  insert _ _ _ := nofun
  erase _ _ := nofun
  turn _ _ := nofun

theorem Setup.AllBodies.code {B : NativeSub → Prop} (hall : setup.AllBodies B) :
    setup.AllBodies (Content.Code fun content => ∀ name body, content = .code name body → B body) :=
  hall.mono fun _ hbody _ _ _ hcode => by cases hcode; exact hbody

/-- What a call in a heap must meet, each call of a procedure meets if it holds for heaps with such
subs. -/
theorem Proc.meets_of_allSubs {B : NativeSub → Prop} {P : Target CellId → List CellId → Heap → Prop}
    (hcall : ∀ target args, Preserves (Heap.AllSubs B) (call target args))
    (hP : ∀ target args h, h.AllSubs B → P target args h) (p : Proc α) (f : Frame)
    (hall : f.heap.AllSubs B) : p.Meets call P f := by
  induction p generalizing f with
  | done a => exact trivial
  | die value => exact trivial
  | act action next ih =>
    exact ⟨fun q _ => hP q.1 q.2 f.heap hall, ih _ _ (Frame.contents_perform hcall action f hall)⟩

end

/-- Wherever it runs, and however deeply calls may nest there, the body ends with live cells. -/
def NativeSub.EndsLive (body : NativeSub) : Prop :=
  ∀ depth invocation,
    (body invocation).EndsLive fun target args => Heap.callWithin depth target args .list

/-- Either way a reference ends with a new cell: the reference itself, or the message of an error. -/
theorem Frame.ends_newRef (target : CellId) (f : Frame) :
    Ends (newRef target) f fun r f' => ∀ c, r = .ok c ∨ r = .error c → f'.heap.isLive c := by
  unfold Ends newRef orFault Heap.newRef
  rw [run_bind, run_bind, run_onHeap, run_bind]
  cases (Heap.retain target).run f.heap with
  | mk r h =>
    cases r <;> rintro c (hc | hc) <;> cases hc <;> exact h.isLive_allocate _

theorem Frame.ends_can (call : Target CellId → List CellId → HeapM (List CellId))
    (className method : String) (f : Frame) :
    Ends (perform call (.can className method)) f fun r f' =>
      ∀ c, r = .ok (some c) ∨ r = .error c → f'.heap.isLive c := by
  unfold Ends perform
  rw [run_get_bind]
  cases f.heap.resolveMethod className method with
  | none => rintro c (hc | hc) <;> cases hc
  | some target =>
    have hnew := Frame.ends_newRef target f
    unfold Ends at hnew
    dsimp only
    rw [map_eq_pure_bind, run_bind]
    cases hrun : (newRef target).run f with
    | mk r f' =>
      rw [hrun] at hnew
      cases r with
      | ok d =>
        rintro c (hc | hc) <;> cases hc
        exact hnew d (.inl rfl)
      | error value =>
        rintro c (hc | hc) <;> cases hc
        exact hnew value (.inr rfl)

theorem Universal.looks_classOf {call : Target CellId → List CellId → HeapM (List CellId)}
    (invocant : CellId) : (classOf invocant).Looks call := by
  refine Proc.looks_bind (Proc.looks_perform rfl) fun className => ?_
  cases className with
  | some className => exact Proc.looks_pure className
  | none => exact Proc.looks_perform rfl

theorem Universal.looks_textArg {call : Target CellId → List CellId → HeapM (List CellId)}
    (invocation : Invocation) (index : Nat) : (textArg invocation index).Looks call := by
  unfold textArg
  split
  · exact Proc.looks_perform rfl
  · exact Proc.looks_pure ""

theorem Universal.endsLive_isa : NativeSub.EndsLive isa := by
  intro depth invocation
  unfold isa
  split
  · exact Proc.endsLive_create rfl
  · exact (looks_classOf _).bind fun className => (looks_textArg _ _).bind fun parent =>
      (Proc.looks_perform rfl).bind fun answer => Proc.endsLive_create rfl

theorem Universal.endsLive_can : NativeSub.EndsLive can := by
  intro depth invocation
  unfold can
  split
  · exact Proc.endsLive_create rfl
  · refine (looks_classOf _).bind fun className => (looks_textArg _ _).bind fun method f => ?_
    change Ends ((Proc.act (.can className method) _).run _) f _
    unfold Ends
    rw [Proc.run_act]
    have hcan := Frame.ends_can (fun target args => Heap.callWithin depth target args .list)
      className method f
    unfold Ends at hcan
    revert hcan
    generalize ExceptT.run (Frame.perform _ (Action.can className method)) f = result
    obtain ⟨r, f'⟩ := result
    intro hcan
    cases r with
    | error value => exact hcan value (.inr rfl)
    | ok o =>
      cases o with
      | none => exact Proc.endsLive_create (rfl : Frame.perform _ .newUndef = _) f'
      | some code =>
        intro c hc
        obtain rfl := List.mem_singleton.1 hc
        exact hcan c (.inl rfl)

namespace Heap

variable {h : Heap}

theorem AllSubs.bodyEndsLive {depth : Nat} {body : NativeSub} (hbody : body.EndsLive)
    (hcalls : ∀ target args h, h.AllSubs NativeSub.EndsLive →
      CallEndsLive depth target args .list h)
    (hall : h.AllSubs NativeSub.EndsLive) (invocation : Invocation) :
    BodyEndsLive (fun target args => callWithin depth target args .list)
      (fun target args => CallEndsLive depth target args .list) (body invocation) h :=
  ⟨Proc.meets_of_allSubs (fun target args => contents_callWithin depth target args .list) hcalls _ _
    (contents_clearError h hall), hbody depth invocation _⟩

theorem AllSubs.callEndsLive : ∀ (depth : Nat) (target : Target CellId) (args : List CellId)
    (context : Context) (h : Heap), h.AllSubs NativeSub.EndsLive →
    CallEndsLive depth target args context h
  | 0, _, _, _, _, _ => trivial
  | depth + 1, target, args, context, h, hall => by
    intro p hp
    -- the body that runs is one of the heap's after the target was looked up
    unfold callee? at hp
    have hresolve := contents_resolve target h hall
    split at hp
    · next c h' hrun =>
      rw [hrun] at hresolve
      split at hp
      · next name body hbody =>
        cases hp
        obtain ⟨x, hx, hcontent⟩ := Option.map_eq_some_iff.1 hbody
        exact AllSubs.bodyEndsLive (hresolve c x hx name body hcontent)
          (fun target args h => AllSubs.callEndsLive depth target args .list h) hresolve _
      · cases hp
    · cases hp

end Heap

theorem HeldRuns.allSubs (hall : setup.AllBodies NativeSub.EndsLive) {i : Interpreter}
    {stakes : List CellId} (hrun : HeldRuns setup i stakes) :
    i.setup = setup ∧ ∀ h, i.heap = some h → h.AllSubs NativeSub.EndsLive := by
  induction hrun with
  | start => exact ⟨rfl, fun _ hh => by cases hh⟩
  | @request i _ s request _ _ ih =>
    obtain ⟨own, heap⟩ := i
    obtain ⟨rfl, hheap⟩ := ih
    cases heap with
    | some h =>
      refine ⟨rfl, fun h' hh => ?_⟩
      cases hh
      exact Heap.contents_answer hall.code request h (hheap h rfl)
    | none =>
      cases request with
      | construct args =>
        have hboot := Heap.contents_boot hall.code args .initial Heap.contents_initial
        simp only [Interpreter.perform]
        split
        · next h hrun =>
          rw [hrun] at hboot
          exact ⟨rfl, fun h' hh => by cases hh; exact hboot⟩
        · exact ⟨rfl, fun _ hh => by cases hh⟩
      | _ => exact ⟨rfl, fun _ hh => by cases hh⟩
  | @destruct i _ _ ih =>
    obtain ⟨own, heap⟩ := i
    cases heap <;> exact ⟨ih.1, fun _ hh => by cases hh⟩

theorem Setup.AllBodies.tidy (hall : setup.AllBodies NativeSub.EndsLive) : setup.Tidy := by
  intro i stakes h s request hrun _ hheap
  have hsubs := (hrun.allSubs hall).2 h hheap
  cases request with
  | call target args context =>
    exact Heap.AllSubs.callEndsLive Heap.maxDepth target args context h hsubs
  | eval source context =>
    intro evaluator hevaluator
    exact Heap.AllSubs.bodyEndsLive (hall.evaluator evaluator hevaluator source)
      (fun target args h => Heap.AllSubs.callEndsLive Heap.maxDepth target args .list h) hsubs _
  | _ => exact trivial

end Embedding
