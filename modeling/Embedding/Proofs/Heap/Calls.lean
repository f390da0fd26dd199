import Embedding.Proofs.Heap.Frames
import Embedding.Proofs.Heap.Packages

/-!
# Stakes of calls

A call copies what its body ended with and then gives the temporaries of the body up. It loses count
of copies only if a cell that the body returned was freed in the meantime. The main definitions here are
`callLost`, the copies that a call loses count of, and `CallEndsLive`, by which no body that a call runs
ends in that way. The main statement is that the counts of calls are exact but for what is lost, and that
nothing is lost if all bodies end with live cells.
-/

namespace Embedding

variable {α : Type} {call : Target CellId → List CellId → HeapM (List CellId)}
  {P : Target CellId → List CellId → Heap → Prop} {L : Target CellId → List CellId → Heap → List CellId}

/-- Every call that the action makes meets the condition `P`. -/
def Action.Meets (P : Target CellId → List CellId → Heap → Prop) {s : Shape} (action : Action s)
    (h : Heap) : Prop :=
  ∀ p ∈ action.called?, P p.1 p.2 h

/-- Every call that the run of the procedure makes meets the condition `P`. -/
def Proc.Meets (call : Target CellId → List CellId → HeapM (List CellId))
    (P : Target CellId → List CellId → Heap → Prop) : Proc α → Frame → Prop
  | .done _, _ | .die _, _ => True
  | .act action next, f =>
    action.Meets P f.heap ∧
      (next ((Frame.perform call action).run f).1).Meets call P ((Frame.perform call action).run f).2

/-- What the calls that the action makes lose, where `L` says what each of them does. -/
def Action.lost (L : Target CellId → List CellId → Heap → List CellId) {s : Shape} (action : Action s)
    (h : Heap) : List CellId :=
  match action.called? with
  | some (target, args) => L target args h
  | none => []

/-- What the calls that the run of the procedure makes lose. -/
def Proc.lost (call : Target CellId → List CellId → HeapM (List CellId))
    (L : Target CellId → List CellId → Heap → List CellId) : Proc α → Frame → List CellId
  | .done _, _ | .die _, _ => []
  | .act action next, f =>
    (next ((Frame.perform call action).run f).1).lost call L ((Frame.perform call action).run f).2
      ++ action.lost L f.heap

namespace Frame

/-- The heap goes on soundly but for cells that are lost, of which there are none if `tidy`. -/
def Loses (x : FrameM α) (f : Frame) (tidy : Prop) (lost : List CellId) : Prop :=
  ∀ σ, f.heap.Sound (f.temporaries ++ σ) → Ends x f fun _ f' => f.heap.Evolves f'.heap ∧
    f'.heap.Sound (f'.temporaries ++ (lost ++ σ)) ∧ (tidy → lost = [])

theorem Keeps.loses {x : FrameM α} {f : Frame} (hx : Keeps x f [] fun _ => []) (tidy : Prop) :
    Loses x f tidy [] := by
  intro σ hs
  have hx := hx σ hs
  unfold Ends at hx ⊢
  cases hrun : x.run f with
  | mk r f' =>
    rw [hrun] at hx
    exact ⟨hx.1, by simpa [endStakes_nil] using hx.2, fun _ => rfl⟩

theorem keeps_keepAll : ∀ (cs : List CellId) (f : Frame), Keeps (cs.mapM keep) f cs fun _ => []
  | [], f => keeps_pure [] f fun _ => []
  | c :: cs, f => by
    rw [List.mapM_cons]
    intro σ hs
    have hkeep : f.heap.Sound (c :: f.temporaries ++ (cs ++ σ)) := hs.perm List.perm_middle
    have hrest := (keeps_keepAll cs { f with temporaries := c :: f.temporaries }).bind
      fun cs' f' _ => keeps_pure (c :: cs') f' fun _ => []
    exact hrest σ hkeep

theorem loses_call (target : Target CellId) (args : List CellId) (f : Frame)
    (hcall : Heap.Loses (call target args) f.heap (P target args f.heap) (L target args f.heap) id) :
    Loses (perform call (.call target args)) f (P target args f.heap) (L target args f.heap) := by
  intro σ hs
  have hcall := hcall _ hs
  unfold Ends at hcall
  cases hrun : (call target args).run f.heap with
  | mk r h' =>
    rw [hrun] at hcall
    obtain ⟨hev, hs', htidy⟩ := hcall
    have hrun' : (onHeap (call target args)).run f = (.ok r, { f with heap := h' }) := by
      rw [run_onHeap, hrun]
    have hs' : h'.Sound (f.temporaries ++ (resultStakes id r ++ (L target args f.heap ++ σ))) :=
      hs'.perm (List.perm_iff_count.2 fun c => by simp only [List.count_append]; omega)
    unfold perform Ends
    rw [run_bind_ok hrun']
    cases r with
    | ok values =>
      obtain ⟨hev', hs''⟩ := keeps_keepAll values { f with heap := h' } _ hs'
      exact ⟨hev.trans hev', by simpa [endStakes_nil] using hs'', htidy⟩
    | error e =>
      cases e with
      | died value => exact ⟨hev, hs'.perm List.perm_middle, htidy⟩
      | _ =>
        obtain ⟨hev', hs''⟩ := keeps_die _ { f with heap := h' } (fun _ : List CellId => []) _ hs'
        exact ⟨hev.trans hev', by simpa [endStakes_nil] using hs'', htidy⟩

theorem loses_perform {s : Shape} (action : Action s) (f : Frame)
    (hcall : ∀ target args h,
      Heap.Loses (call target args) h (P target args h) (L target args h) id) :
    Loses (perform call action) f (action.Meets P f.heap) (action.lost L f.heap) := by
  cases hc : action.called? with
  | none =>
    rw [Action.lost, hc]
    exact (keeps_perform call action hc f).loses _
  | some p =>
    cases action with
    | call target args =>
      intro σ hs
      obtain ⟨hev, hs', htidy⟩ := loses_call target args f (hcall target args f.heap) σ hs
      exact ⟨hev, hs', fun h => htidy (h (target, args) rfl)⟩
    | _ => cases hc

end Frame

theorem Proc.run_act {s : Shape} (action : Action s)
    (next : Except CellId (Answer CellId s) → Proc α) (f : Frame) :
    ((Proc.act action next).run call).run f =
      ((next ((Frame.perform call action).run f).1).run call).run
        ((Frame.perform call action).run f).2 := rfl

theorem Proc.run_bind {β : Type} (p : Proc α) (k : α → Proc β) (f : Frame) :
    ((p >>= k).run call).run f = ((p.run call) >>= fun a => (k a).run call).run f := by
  induction p generalizing f with
  | done a => rfl
  | die value => rfl
  | act action next ih =>
    rw [Embedding.run_bind, Proc.run_act, ← Embedding.run_bind, ← ih]
    rfl

/-- One step at a time: what an action leaves is what the rest of the procedure starts from. -/
theorem Proc.loses_run
    (hcall : ∀ target args h, Heap.Loses (call target args) h (P target args h) (L target args h) id)
    (p : Proc α) (f : Frame) : Frame.Loses (p.run call) f (p.Meets call P f) (p.lost call L f) := by
  induction p generalizing f with
  | done a => exact fun σ hs => ⟨.refl _, hs, fun _ => rfl⟩
  | die value => exact fun σ hs => ⟨.refl _, hs, fun _ => rfl⟩
  | act action next ih =>
    intro σ hs
    obtain ⟨hev, hs', htidy⟩ := Frame.loses_perform action f hcall σ hs
    unfold Ends
    rw [Proc.run_act]
    obtain ⟨hev', hs'', htidy'⟩ := ih _ _ (action.lost L f.heap ++ σ) hs'
    refine ⟨hev.trans hev', by simpa [Proc.lost] using hs'', fun h => ?_⟩
    rw [Proc.lost, htidy h.1, htidy' h.2]
    rfl

namespace Heap

/-! ## The end of a body -/

/-- A body ended with live cells. -/
def LiveEnd : Except CellId (List CellId) → Heap → Prop
  | .ok values, h => ∀ c ∈ values, h.isLive c
  | .error value, h => h.isLive value

def copyOut : Except CellId (List CellId) → HeapM (List CellId)
  | .ok values => values.mapM copy
  | .error value => do
    let value ← copy value
    setError value
    throw (.died value)

def narrow : Context → List CellId → HeapM (List CellId)
  | .list, values => return values
  | .scalar, values => do
    releaseAll values.dropLast
    return values.getLast?.toList
  | .void, values => do
    releaseAll values
    return []

theorem gives_copyAll : ∀ (values : List CellId) (h : Heap), (∀ c ∈ values, h.isLive c) →
    Gives (values.mapM copy) h [] id
  | [], h, _ => gives_pure [] h id
  | c :: values, h, hlive => by
    rw [List.mapM_cons]
    refine (gives_copy (hlive c (.head _))).bind fun d h₁ hrun => ?_
    have hg := (copy_grows h c).of_run hrun
    have hrest := gives_copyAll values h₁ fun e he => hg.isLive (hlive e (.tail _ he))
    exact (hrest.frame [d]).bind fun ds h₂ _ =>
      (gives_pure (d :: ds) h₂ id).perm (List.perm_append_singleton d ds) fun _ => .refl _

/-- The copies of the values before the first that cannot be copied. -/
def copiesMade : List CellId → Heap → List CellId
  | [], _ => []
  | c :: values, h =>
    match (copy c).run h with
    | (.ok d, h') => d :: copiesMade values h'
    | (.error _, _) => []

/-- The copies that are lost when a later value cannot be copied. -/
def lostCopies : Except CellId (List CellId) → Heap → List CellId
  | .ok values, h =>
    match (values.mapM copy).run h with
    | (.ok _, _) => []
    | (.error _, _) => copiesMade values h
  | .error _, _ => []

theorem lostCopies_ok {values ds : List CellId} {h h' : Heap}
    (hrun : (values.mapM copy).run h = (.ok ds, h')) : lostCopies (.ok values) h = [] := by
  simp [lostCopies, hrun]

theorem lostCopies_error {values : List CellId} {e : Fault} {h h' : Heap}
    (hrun : (values.mapM copy).run h = (.error e, h')) :
    lostCopies (.ok values) h = copiesMade values h := by
  simp [lostCopies, hrun]

theorem loses_copyAll : ∀ (values : List CellId) (h : Heap),
    Loses (values.mapM copy) h False (lostCopies (.ok values) h) id
  | [], h => (gives_pure [] h id).loses _
  | c :: values, h => by
    intro σ hs
    have hcopy := settles_copy h c σ hs
    unfold Ends at hcopy ⊢
    cases hrun : (copy c).run h with
    | mk r h₁ =>
      rw [hrun] at hcopy
      obtain ⟨hev, -, hs₁⟩ := hcopy
      cases r with
      | error e =>
        have hall : ((c :: values).mapM copy).run h = (.error e, h₁) := by
          rw [List.mapM_cons, run_bind_error hrun]
        have hmade : copiesMade (c :: values) h = [] := by simp [copiesMade, hrun]
        rw [lostCopies_error hall, hall, hmade]
        exact ⟨hev, hs₁, False.elim⟩
      | ok d =>
        have hrest := loses_copyAll values h₁ (d :: σ) hs₁
        unfold Ends at hrest
        cases hrun' : (values.mapM copy).run h₁ with
        | mk r h₂ =>
          rw [hrun'] at hrest
          obtain ⟨hev', hs₂, -⟩ := hrest
          cases r with
          | ok ds =>
            have hall : ((c :: values).mapM copy).run h = (.ok (d :: ds), h₂) := by
              rw [List.mapM_cons, run_bind_ok hrun, run_bind_ok hrun', run_pure]
            rw [lostCopies_ok hrun'] at hs₂
            rw [lostCopies_ok hall, hall]
            exact ⟨hev.trans hev', hs₂.perm List.perm_middle, False.elim⟩
          -- the copies made so far are lost with the one that failed
          | error e =>
            have hall : ((c :: values).mapM copy).run h = (.error e, h₂) := by
              rw [List.mapM_cons, run_bind_ok hrun, run_bind_error hrun']
            have hmade : copiesMade (c :: values) h = d :: copiesMade values h₁ := by
              simp [copiesMade, hrun]
            rw [lostCopies_error hrun'] at hs₂
            rw [lostCopies_error hall, hall, hmade]
            exact ⟨hev.trans hev', hs₂.perm (List.perm_middle.append_left _), False.elim⟩

theorem loses_copyOut (outcome : Except CellId (List CellId)) (h : Heap) :
    Loses (copyOut outcome) h (LiveEnd outcome h) (lostCopies outcome h) id := by
  cases outcome with
  | ok values =>
    intro σ hs
    obtain ⟨hev, hs', -⟩ := loses_copyAll values h σ hs
    refine ⟨hev, hs', fun hlive => ?_⟩
    obtain ⟨ds, h', hrun, -⟩ := gives_copyAll values h hlive σ hs
    exact lostCopies_ok hrun
  | error value =>
    by_cases hlive : h.isLive value
    · intro σ hs
      obtain ⟨d, h₁, hrun, hev, hs₁⟩ := gives_copy hlive σ hs
      obtain ⟨_, h₂, hrun', hev', hs₂⟩ := gives_setError (hs₁.isLive (List.mem_cons_self ..)) _ hs₁
      have hout : (copyOut (.error value)).run h = (.error (.died d), h₂) := by
        rw [copyOut, run_bind_ok hrun, run_bind_ok hrun']
        rfl
      exact ends_of_run hout ⟨hev.trans hev', hs₂, fun _ => rfl⟩
    · exact (settles_error (run_bind_error (run_copy_freed hlive)) rfl).loses _

theorem gives_narrow (context : Context) (values : List CellId) (h : Heap) :
    Gives (narrow context values) h values id := by
  cases context with
  | list => exact gives_pure values h id
  | scalar =>
    have hlast := ((gives_releaseAll values.dropLast h).frame values.getLast?.toList).bind
      fun _ h' _ => gives_pure values.getLast?.toList h' id
    rwa [dropLast_append_getLast?] at hlast
  | void => exact (gives_releaseAll values h).bind fun _ h' _ => gives_pure [] h' id

/-! ## Calls -/

def startFrame (h : Heap) : Frame := { heap := (clearError.run h).2 }

/-- The body ends with live cells, and so do the bodies that it calls. -/
def BodyEndsLive (call : Target CellId → List CellId → HeapM (List CellId))
    (P : Target CellId → List CellId → Heap → Prop) (body : Proc (List CellId)) (h : Heap) : Prop :=
  body.Meets call P (startFrame h) ∧
    LiveEnd ((body.run call).run (startFrame h)).1 ((body.run call).run (startFrame h)).2.heap

theorem invoke_eq (call : Target CellId → List CellId → HeapM (List CellId))
    (body : Proc (List CellId)) (context : Context) : invoke call body context = (do
      clearError
      let h ← get
      let (outcome, frame) := (body.run call).run { heap := h }
      set frame.heap
      let result ← (copyOut outcome).attempt
      releaseAll frame.temporaries.reverse
      let values ← ofExcept result
      narrow context values) := by
  unfold invoke
  congr 1; funext _
  congr 1; funext h
  rcases (body.run call).run { heap := h } with ⟨outcome, frame⟩
  cases outcome <;> cases context <;> rfl

/-- What is lost when the body runs in a fresh frame: what its calls lose, and copies at its own end. -/
def bodyLost (call : Target CellId → List CellId → HeapM (List CellId))
    (L : Target CellId → List CellId → Heap → List CellId) (body : Proc (List CellId)) (h : Heap) :
    List CellId :=
  lostCopies ((body.run call).run (startFrame h)).1 ((body.run call).run (startFrame h)).2.heap
    ++ body.lost call L (startFrame h)

theorem loses_invoke
    (hcall : ∀ target args h, Loses (call target args) h (P target args h) (L target args h) id)
    (body : Proc (List CellId)) (context : Context) (h : Heap) :
    Loses (invoke call body context) h (BodyEndsLive call P body h) (bodyLost call L body h) id := by
  intro σ hs
  obtain ⟨_, h₁, hrun₁, hev₁, hs₁⟩ := gives_clearError h σ hs
  have hstart : startFrame h = { heap := h₁ } := by rw [startFrame, hrun₁]
  have hbody := Proc.loses_run hcall body { heap := h₁ } σ hs₁
  unfold Ends BodyEndsLive bodyLost at *
  rw [hstart, invoke_eq, run_bind_ok hrun₁, run_get_bind]
  cases hrun₂ : (body.run call).run { heap := h₁ } with
  | mk outcome frame =>
    rw [hrun₂] at hbody
    obtain ⟨hev₂, hs₂, htidy₂⟩ := hbody
    have hout := loses_copyOut outcome frame.heap _ hs₂
    unfold Ends at hout
    dsimp only
    rw [run_set_bind, run_bind_ok (run_attempt ..)]
    cases hrun₃ : (copyOut outcome).run frame.heap with
    | mk result h₃ =>
      rw [hrun₃] at hout
      obtain ⟨hev₃, hs₃, htidy₃⟩ := hout
      -- the temporaries come first, since they are what is released next
      have hs₃ : h₃.Sound (frame.temporaries.reverse ++ (resultStakes id result ++
          ((lostCopies outcome frame.heap ++ body.lost call L { heap := h₁ }) ++ σ))) :=
        hs₃.perm (List.perm_iff_count.2 fun c => by
          simp only [List.count_append, List.count_reverse]
          omega)
      obtain ⟨_, h₄, hrun₄, hev₄, hs₄⟩ := gives_releaseAll frame.temporaries.reverse h₃ _ hs₃
      have hev := hev₁.trans (hev₂.trans (hev₃.trans hev₄))
      have htidy : body.Meets call P { heap := h₁ } ∧ LiveEnd outcome frame.heap →
          lostCopies outcome frame.heap ++ body.lost call L { heap := h₁ } = [] := fun hlive => by
        rw [htidy₂ hlive.1, htidy₃ hlive.2]
        rfl
      rw [run_bind_ok hrun₄]
      cases result with
      | error e => exact ⟨hev, hs₄, htidy⟩
      | ok values =>
        obtain ⟨_, h₅, hrun₅, hev₅, hs₅⟩ := gives_narrow context values h₄ _ hs₄
        have hlast : (ofExcept (Except.ok values) >>= narrow context).run h₄ = _ := hrun₅
        rw [hlast]
        exact ⟨hev.trans hev₅, hs₅, htidy⟩

theorem copyOut_eq_ok {outcome : Except CellId (List CellId)} {copies : List CellId} {h h' : Heap}
    (hrun : (copyOut outcome).run h = (.ok copies, h')) :
    ∃ values, outcome = .ok values ∧ (values.mapM copy).run h = (.ok copies, h') := by
  cases outcome with
  | ok values => exact ⟨values, rfl, hrun⟩
  | error value =>
    obtain ⟨_, _, _, hrun⟩ := run_bind_eq_ok hrun
    obtain ⟨_, _, _, hrun⟩ := run_bind_eq_ok hrun
    cases hrun

theorem invoke_eq_ok {body : Proc (List CellId)} {context : Context} {results : List CellId} {h h' : Heap}
    (hrun : (invoke call body context).run h = (.ok results, h')) : ∃ values f h₁ copies h₂,
      (body.run call).run (startFrame h) = (.ok values, f) ∧
      (values.mapM copy).run f.heap = (.ok copies, h₁) ∧
      (releaseAll f.temporaries.reverse).run h₁ = (.ok (), h₂) ∧
      (narrow context copies).run h₂ = (.ok results, h') := by
  rw [invoke_eq] at hrun
  obtain ⟨_, h₀, hclear, hrun⟩ := run_bind_eq_ok hrun
  have hstart : startFrame h = { heap := h₀ } := by rw [startFrame, hclear]
  rw [hstart]
  rw [run_get_bind] at hrun
  cases hbody : (body.run call).run { heap := h₀ } with
  | mk outcome f =>
    rw [hbody] at hrun
    dsimp only at hrun
    rw [run_set_bind, run_bind_ok (run_attempt ..)] at hrun
    cases hcopy : (copyOut outcome).run f.heap with
    | mk result h₁ =>
      rw [hcopy] at hrun
      obtain ⟨_, h₂, hrelease, hrun⟩ := run_bind_eq_ok hrun
      cases result with
      | error e => cases hrun
      | ok copies =>
        obtain ⟨values, rfl, hcopy⟩ := copyOut_eq_ok hcopy
        exact ⟨values, f, h₁, copies, h₂, rfl, hcopy, hrelease, hrun⟩

theorem deathless_toText (h : Heap) (c : CellId) : Deathless (h.toText c) :=
  (deathless_toBytes h c).bind fun _ _ => deathless_ok _

theorem tracks_invocantClass (invocant : CellId) (method : String) (h : Heap) (tidy : Prop) :
    Tracks (invocantClass invocant method) h tidy fun _ => [] := by
  refine tracks_query (deathless_kind h invocant) fun kind _ => ?_
  split
  · refine tracks_query (deathless_className h invocant) fun className _ => ?_
    cases className with
    | some className => exact (gives_pure className h fun _ => []).tracks tidy
    | none => exact tracks_die h _ tidy _
  · refine tracks_query (deathless_toText h invocant) fun className _ => ?_
    refine Tracks.of_run ?_ (run_get_bind _ h)
    split
    · exact (gives_pure className h fun _ => []).tracks tidy
    · exact tracks_die h _ tidy _
  · exact tracks_die h _ tidy _

theorem tracks_resolve (target : Target CellId) (h : Heap) (tidy : Prop) :
    Tracks (resolve target) h tidy fun _ => [] := by
  have hfound := fun (c : CellId) h => (gives_pure c h fun _ => []).tracks tidy
  cases target with
  | code c =>
    refine tracks_query (deathless_kind h c) fun kind _ => ?_
    split
    · exact hfound c h
    · refine tracks_query (deathless_target h c) fun referent _ => ?_
      refine tracks_query (deathless_kind h referent) fun kind _ => ?_
      split
      · exact hfound referent h
      · exact tracks_die h _ tidy _
    · exact tracks_die h _ tidy _
  | named name =>
    refine Tracks.of_run ?_ (run_get_bind _ h)
    cases h.symbol? .code (Name.qualify name) with
    | some c => exact hfound c h
    | none => exact tracks_die h _ tidy _
  | method invocant name =>
    refine (tracks_invocantClass invocant name h tidy).bind fun className h' _ => ?_
    refine Tracks.of_run ?_ (run_get_bind _ h')
    dsimp only
    split
    · next c _ => exact hfound c h'
    · exact tracks_die h' _ tidy _

def passed : Target CellId → List CellId → List CellId
  | .method invocant _, args => invocant :: args
  | _, args => args

/-- The body that a call runs, and the heap in which it runs. -/
def callee? (target : Target CellId) (args : List CellId) (context : Context) (h : Heap) :
    Option (Proc (List CellId) × Heap) :=
  match (resolve target).run h with
  | (.ok c, h') =>
    match (h'.cell? c).map Cell.content with
    | some (.code name body) => some (body ⟨name, passed target args, context⟩, h')
    | _ => none
  | (.error _, _) => none

/-- A call in a heap where calls may nest `depth` levels deep runs only bodies that end with live
cells. -/
def CallEndsLive : (depth : Nat) → Target CellId → List CellId → Context → Heap → Prop
  | 0, _, _, _, _ => True
  | depth + 1, target, args, context, h =>
    ∀ p ∈ callee? target args context h,
      BodyEndsLive (fun target args => callWithin depth target args .list)
        (fun target args => CallEndsLive depth target args .list) p.1 p.2

/-- What a call in a heap where calls may nest `depth` levels deep loses. -/
def callLost : (depth : Nat) → Target CellId → List CellId → Context → Heap → List CellId
  | 0, _, _, _, _ => []
  | depth + 1, target, args, context, h =>
    match callee? target args context h with
    | some (body, h') =>
      bodyLost (fun target args => callWithin depth target args .list)
        (fun target args => callLost depth target args .list) body h'
    | none => []

/-! ### Deciding how bodies end -/

section
variable [∀ target args h, Decidable (P target args h)]

instance {s : Shape} (action : Action s) (h : Heap) : Decidable (action.Meets P h) :=
  inferInstanceAs (Decidable (∀ p ∈ action.called?, P p.1 p.2 h))

def decideMeets : (p : Proc α) → (f : Frame) → Decidable (p.Meets call P f)
  | .done _, _ | .die _, _ => .isTrue trivial
  | .act action next, f =>
    let step := (Frame.perform call action).run f
    have := decideMeets (next step.1) step.2
    inferInstanceAs (Decidable (_ ∧ _))

instance (c : CellId) (h : Heap) : Decidable (h.isLive c) :=
  inferInstanceAs (Decidable ((h.cell? c).isSome = true))

instance : (outcome : Except CellId (List CellId)) → (h : Heap) → Decidable (LiveEnd outcome h)
  | .ok values, h => inferInstanceAs (Decidable (∀ c ∈ values, h.isLive c))
  | .error value, h => inferInstanceAs (Decidable (h.isLive value))

instance (body : Proc (List CellId)) (h : Heap) : Decidable (BodyEndsLive call P body h) :=
  have : Decidable (body.Meets call P (startFrame h)) := decideMeets body (startFrame h)
  inferInstanceAs (Decidable (_ ∧ _))

end

instance decideCallEndsLive : (depth : Nat) → (target : Target CellId) → (args : List CellId) →
    (context : Context) → (h : Heap) → Decidable (CallEndsLive depth target args context h)
  | 0, _, _, _, _ => .isTrue trivial
  | depth + 1, target, args, context, h =>
    have := fun target args h => decideCallEndsLive depth target args .list h
    inferInstanceAs (Decidable (∀ p ∈ callee? target args context h, _))

theorem callWithin_succ (depth : Nat) (target : Target CellId) (args : List CellId)
    (context : Context) : callWithin (depth + 1) target args context = (do
      let c ← resolve target
      match (← query (·.cell c)).content with
      | .code name body =>
        invoke (fun target args => callWithin depth target args .list)
          (body ⟨name, passed target args, context⟩) context
      | _ => die "Not a CODE reference") := by
  cases target <;> rfl

theorem loses_callWithin : ∀ (depth : Nat) (target : Target CellId) (args : List CellId)
    (context : Context) (h : Heap),
    Loses (callWithin depth target args context) h (CallEndsLive depth target args context h)
      (callLost depth target args context h) id
  | 0, _, _, _, h => (tracks_die h _ True _).loses _
  | depth + 1, target, args, context, h => by
    rw [callWithin_succ]
    refine (tracks_resolve target h True).bind_loses (fun c h' hrun => ?_) fun e h' hrun => by
      simp [callLost, callee?, hrun]
    refine loses_query (deathless_cell h' c) (fun x hx => ?_) fun e he => by
      simp [callLost, callee?, hrun, (cell_eq_error_iff.1 he).1]
    have hcell := cell_eq_ok_iff.1 hx
    split
    · next name body hcontent =>
      have hcallee : callee? target args context h =
          some (body ⟨name, passed target args, context⟩, h') := by
        simp [callee?, hrun, hcell, hcontent]
      have hinvoke := loses_invoke
        (fun target args h => loses_callWithin depth target args .list h)
        (body ⟨name, passed target args, context⟩) context h'
      intro σ hs
      obtain ⟨hev, hs', htidy⟩ := hinvoke σ hs
      rw [callLost, hcallee]
      exact ⟨hev, hs', fun hlive => htidy (hlive _ hcallee)⟩
    · next hcontent =>
      have hcallee : callee? target args context h = none := by
        simp only [callee?, hrun, hcell, Option.map_some]
        split
        · next hcode => exact absurd (Option.some.inj hcode) (hcontent _ _)
        · rfl
      rw [callLost, hcallee]
      exact (tracks_die h' _ True _).loses _

end Heap

end Embedding
