import Embedding.Proofs.Host.Accounts
import Embedding.Proofs.Host.Crossing

/-!
# Accounts of reading values

The value of a cell owns what it needs of the cell, and the reading of error values is accounted for
at every depth.
-/

namespace Embedding

variable {may : Permission} {I : World → List Handle → Prop} {b : List Handle}

/-! ## Error values -/

theorem accounts_errorText (e : Handle) : Accounts I b (errorText e) [] fun _ => [] :=
  fun w σ _ hI => by
    obtain ⟨message, hrun⟩ := run_errorText e w
    exact ends_of_run hrun hI

theorem toHostError_handles (operation : String) (f : Fault) :
    (f.toHostError operation).handles = [] := by cases f <;> rfl

namespace Stock

variable (hstock : Stock I) {read : Handle → HostM Value} {e : Handle}
include hstock

theorem accounts_runtimeError (hread : Accounts I [e] (read e) [] Value.handles) :
    Accounts I [e] (runtimeError read e) [] HostError.handles := by
  refine (accounts_errorText e).bind fun message _ _ _ => hread.attempt.bind fun r _ _ _ => ?_
  cases r with
  | ok v => exact accounts_pure rfl
  | error failure =>
    exact (hstock.accounts_release failure.handles).bind fun _ _ _ _ => accounts_pure rfl

omit hstock in
theorem unfailing_runtimeError (read : Handle → HostM Value) (e : Handle) :
    Unfailing (runtimeError read e) := by
  have htext : Unfailing (errorText e) := fun w =>
    let ⟨message, hrun⟩ := run_errorText e w
    ⟨message, w, hrun⟩
  refine htext.bind fun message => (unfailing_attempt _).bind fun r => ?_
  cases r with
  | ok v => exact unfailing_pure _
  | error failure => exact (unfailing_release _).bind fun _ => unfailing_pure _

/-- A failure reads its error value while it is there, and releases it with other handles. -/
theorem accounts_failure {α : Type} {given : α → List Handle} {released : List Handle}
    (hread : Accounts I [e] (read e) [] Value.handles) (he : e ∈ released) :
    Accounts I b (do
      let failure ← runtimeError read e
      HostM.release released
      throw failure : HostM α) released given := by
  have hsub : [e] ⊆ released ++ b := List.cons_subset.2
    ⟨List.mem_append_left _ he, List.nil_subset _⟩
  have herror := ((hstock.accounts_runtimeError hread).mono hsub).own (unfailing_runtimeError read e)
  exact herror.bind fun failure _ _ _ => hstock.accounts_releaseThrow released failure

/-- A crossing keeps the handles in its answer, and for an error those in the error's value. -/
theorem accounts_conclude (hread : ∀ h, Accounts I [h] (read h) [] Value.handles) {s : SessionId}
    {operation : String} {shape : Shape} (outcome : Except Fault (Answer Handle shape))
    (pending : Except Fault (Option Handle)) :
    Accounts I b (conclude read s operation outcome pending) (exchanged s outcome pending)
      Answer.stakes := by
  have hfailure (e : Handle) (rest : List Handle) {hs : List Handle} (hp : hs.Perm (e :: rest)) :
      Accounts I b (do
        let failure ← runtimeError read e
        HostM.release (e :: rest)
        throw failure) hs (Answer.stakes : Answer Handle shape → List Handle) :=
    hstock.weaken (hstock.accounts_failure (hread e) (List.mem_cons_self ..)) hp
      fun _ _ _ _ => .refl _
  have hfault (fault : Fault) (hs : List Handle) : Accounts I b (do
      HostM.release hs
      throw (fault.toHostError operation)) hs (Answer.stakes : Answer Handle shape → List Handle) := by
    refine hstock.weaken (hstock.accounts_releaseThrow hs (fault.toHostError operation)) ?_
      fun _ _ _ _ => .refl _
    rw [toHostError_handles, List.nil_append]
  rcases outcome with fault | answer
  · cases fault with
    | died value => exact hfailure ⟨s, value⟩ (pendingHandles pending) (.refl _)
    | _ => exact hfault _ (pendingHandles pending)
  · rcases pending with fault | _ | e
    · exact hstock.weaken (hfault fault answer.stakes) (by simp [exchanged, diedHandles,
        HostM.stakesOf, pendingHandles]) fun _ _ _ _ => .refl _
    · exact accounts_pure (by simp [exchanged, diedHandles, HostM.stakesOf, pendingHandles,
        Answer.stakes])
    · exact hfailure e answer.stakes (by simp [exchanged, diedHandles, HostM.stakesOf,
        pendingHandles, Answer.stakes])

end Stock

theorem Dealing.boundary (hdealing : Dealing may I) {read : Handle → HostM Value}
    (hread : ∀ h, Accounts I [h] (read h) [] Value.handles) {s : SessionId} {operation : String}
    {shape : Shape} {request : Request Handle shape} (hmay : may s request)
    (hplain : request.isPlain = true) (hcells : ∀ h ∈ request.cells, h.session = s) :
    Accounts I request.cells (crossWith read s operation request) [] Answer.stakes := by
  intro w σ hsub hI
  rw [crossWith_eq]
  cases hrefusal : (w.session s).stage.refusal operation with
  | some e =>
    refine ends_of_run (run_bind_error (by rw [run_ensureLive, hrefusal])) ?_
    simpa [hostStakes, refusal_handles hrefusal] using hI
  | none =>
    obtain ⟨⟨outcome, pending⟩, w', hrun⟩ := exchange_ends s request w
    have hI' := hdealing.exchange request hmay (refusal_eq_none_iff.1 hrefusal) hplain hcells hsub
      hI hrun
    have hconclude : Ends (conclude read s operation outcome pending) w' _ :=
      hdealing.toStock.accounts_conclude (b := []) hread outcome pending w' σ (List.nil_subset σ) hI'
    unfold Ends at hconclude ⊢
    rwa [run_bind_ok (by rw [run_ensureLive, hrefusal]), run_bind_ok hrun]

/-! ## Values -/

/-- A way to make requests whose accounts are right. -/
structure Crosses (may : Permission) (I : World → List Handle → Prop)
    (act : SessionId → String → {shape : Shape} → Request Handle shape →
      HostM (Answer Handle shape)) : Prop where
  accounts : ∀ s operation {shape : Shape} (request : Request Handle shape), may s request →
    request.isPlain = true → (∀ h ∈ request.cells, h.session = s) →
    Accounts I request.cells (act s operation request) [] Answer.stakes
  session : ∀ {s operation} {shape : Shape} {request : Request Handle shape} {answer w w'},
    (act s operation request).run w = (.ok answer, w') → ∀ h ∈ answer.stakes, h.session = s

section
variable {act : SessionId → String → {shape : Shape} → Request Handle shape →
  HostM (Answer Handle shape)} (hact : Crosses may I act)
include hact

theorem Crosses.about {h : Handle} {operation : String} {shape : Shape}
    (request : Request Handle shape) (hmay : may h.session request)
    (hplain : request.isPlain = true) (hcells : request.cells = [h]) :
    Accounts I [h] (act h.session operation request) [] Answer.stakes := by
  have := hact.accounts h.session operation request hmay hplain (by simp [hcells])
  rwa [hcells] at this

variable [Reads may]

theorem Crosses.on {h : Handle} {operation : String} {shape : Shape} (request : Request Handle shape)
    (hreads : request.reads = true) (hcells : request.cells = [h]) :
    Accounts I [h] (act h.session operation request) [] Answer.stakes :=
  hact.about request (Reads.reads _ request hreads)
    (Request.isPlain_of_looks (Request.looks_of_reads hreads)) hcells

theorem accounts_scalarValueWith (h : Handle) :
    Accounts I [h] (scalarValueWith act h) [] Value.handles := by
  refine (hact.on (.flags h) rfl rfl).bind fun flags _ _ _ => ?_
  split
  · exact (hact.on (.toInt h) rfl rfl).bind fun n _ _ _ => accounts_pure rfl
  split
  · exact (hact.on (.toInt h) rfl rfl).bind fun n _ _ _ => accounts_pure rfl
  split
  · exact (hact.on (.toNum h) rfl rfl).bind fun x _ _ _ => accounts_pure rfl
  split
  · refine (hact.on (.toBytes h) rfl rfl).bind fun bytes _ _ _ => ?_
    split
    · split
      · next s _ => exact accounts_pure rfl
      · exact accounts_throw _
    · exact accounts_pure rfl
  · exact accounts_pure rfl

theorem accounts_referenceValueWith (hstock : Stock I) (h : Handle) :
    Accounts I [h] (referenceValueWith act h) [] Value.handles := by
  refine (hact.on (.className h) rfl rfl).bind fun className _ _ _ => ?_
  cases className with
  | some className =>
    refine (hact.on (.deref h) rfl rfl).bind fun target _ _ hrun => ?_
    have hsession : target.session = h.session := hact.session hrun target (List.mem_cons_self ..)
    have href : Accounts I [target] (act h.session "to_host" (.newRef target)) [] Answer.stakes :=
      hact.accounts h.session "to_host" (.newRef target) (Reads.reads _ _ rfl) rfl
        (by simp [Request.cells, hsession])
    refine hstock.holding [target] ((href.mono (by simp)).bind fun r _ _ _ => ?_)
    exact accounts_pure rfl
  | none =>
    refine (hact.on (.deref h) rfl rfl).bind fun target _ _ _ => ?_
    have hkind : Accounts I [target] (act target.session "kind" (.kind target)) [] Answer.stakes :=
      hact.on (.kind target) rfl rfl
    refine hstock.orReleaseInto [target] (fun _ => [])
      ((hkind.mono (by simp)).bind fun kind _ _ _ => ?_) ?_
    · cases kind <;> exact accounts_pure rfl
    · intro v w w' hrun
      obtain ⟨kind, w₁, -, hrun⟩ := run_bind_eq_ok hrun
      cases kind <;> cases hrun <;> exact .refl _

theorem accounts_valueWith (hstock : Stock I) (h : Handle) :
    Accounts I [h] (valueWith act h) [] Value.handles := by
  have hview : Accounts I [h] (HostM.clone [h]) [] fun _ => [h] :=
    hstock.accounts_clone (List.Subset.refl _)
  refine (hact.on (.kind h) rfl rfl).bind fun kind _ _ _ => ?_
  cases kind with
  | undef => exact accounts_pure rfl
  | scalar => exact accounts_scalarValueWith hact h
  | ref => exact accounts_referenceValueWith hact hstock h
  | array | hash | code => exact hview.bind fun _ _ _ _ => accounts_pure rfl
  | glob => exact accounts_throw _

end

namespace Dealing

variable (hdealing : Dealing may I)
include hdealing

theorem crosses_crossWith {read : Handle → HostM Value}
    (hread : ∀ h, Accounts I [h] (read h) [] Value.handles) : Crosses may I (crossWith read) where
  accounts _ _ _ _ hmay hplain hcells := hdealing.boundary hread hmay hplain hcells
  session := crossWith_session

variable [Reads may]

theorem accounts_valueWithin : ∀ (depth : Nat) (h : Handle),
    Accounts I [h] (valueWithin depth h) [] Value.handles
  | 0, _ => accounts_throw _
  | depth + 1, h =>
    accounts_valueWith (hdealing.crosses_crossWith (accounts_valueWithin depth)) hdealing.toStock h

theorem crosses : Crosses may I cross :=
  hdealing.crosses_crossWith (hdealing.accounts_valueWithin maxErrors)

theorem accounts_value (h : Handle) : Accounts I [h] h.value [] Value.handles :=
  accounts_valueWith hdealing.crosses hdealing.toStock h

/-- A permitted request about cells of the session that is asked. -/
theorem among {s : SessionId} {operation : String} {shape : Shape} {cells : List Handle}
    (request : Request Handle shape) (hmay : may s request) (hplain : request.isPlain = true)
    (hcells : request.cells = cells) (hsession : ∀ h ∈ cells, h.session = s) :
    Accounts I cells (cross s operation request) [] Answer.stakes := by
  subst hcells
  exact hdealing.crosses.accounts s operation request hmay hplain hsession

theorem on {h : Handle} [Glances may] {operation : String} {shape : Shape}
    (request : Request Handle shape) (hglances : request.glances = true)
    (hcells : request.cells = [h]) :
    Accounts I [h] (cross h.session operation request) [] Answer.stakes :=
  hdealing.crosses.about request (Glances.glances _ request hglances)
    (Request.isPlain_of_looks (Request.looks_of_glances hglances)) hcells

theorem turning {h : Handle} [Turns may [h]] {operation : String} {shape : Shape}
    (request : Request Handle shape) (hturns : request.turns = true) (hcells : request.cells = [h]) :
    Accounts I [h] (cross h.session operation request) [] Answer.stakes :=
  hdealing.crosses.about request (Turns.turns request hturns hcells (List.mem_singleton_self h))
    (Request.isPlain_of_looks (by rw [Request.looks, hturns, Bool.or_true])) hcells

theorem upon {h : Handle} [Free may h.session] {operation : String} {shape : Shape}
    (request : Request Handle shape) (hplain : request.isPlain = true)
    (hcells : request.cells = [h]) :
    Accounts I [h] (cross h.session operation request) [] Answer.stakes :=
  hdealing.crosses.about request (Free.free request (Request.isTextual_of_cells hcells)) hplain hcells

theorem about {s : SessionId} {operation : String} {shape : Shape} (request : Request Handle shape)
    (hmay : may s request) (hplain : request.isPlain = true) (hcells : request.cells = []) :
    Accounts I b (cross s operation request) [] Answer.stakes :=
  (hdealing.among request hmay hplain hcells nofun).mono (List.nil_subset b)

theorem accounts_valuesOf : ∀ (hs : List Handle),
    Accounts I hs (valuesOf hs) [] Value.handlesOfItems
  | [] => accounts_pure rfl
  | h :: hs => by
    refine ((hdealing.accounts_value h).mono (by simp)).bind fun v _ _ _ => ?_
    have hrest : Accounts I (v.handles ++ (h :: hs)) (valuesOf hs) [] Value.handlesOfItems :=
      (accounts_valuesOf hs).mono fun _ hm => by simp [hm]
    refine (hdealing.orRelease v.handles hrest).bind fun vs _ _ _ => ?_
    refine hdealing.weaken (accounts_pure rfl) ?_ fun _ _ _ _ => .refl _
    exact List.perm_append_comm

end Dealing

end Embedding
