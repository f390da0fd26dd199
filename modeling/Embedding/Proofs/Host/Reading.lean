import Embedding.Proofs.Heap.Quiet
import Embedding.Proofs.Host.Accounts

/-!
# Reading in quiet worlds

While no error is pending, reading the value of a cell meets none. So an error value is read as any
other value is, and nothing is said by how deeply errors may follow on one another.
-/

namespace Embedding

variable {α β : Type} {w w' : World} {s : SessionId} {operation : String} {shape : Shape}
  {request : Request Handle shape} {read read' : Handle → HostM Value}

namespace Heap

variable {h : Heap} {σ : List CellId}

/-- A reading request is no call: nothing dies of it, and it leaves the contents of cells alone. -/
theorem answer_reads {setup : Setup} {request : Request CellId shape} (hreads : request.reads = true)
    (hs : h.Sound σ) : Ends (answer setup request) h fun r h' =>
      h.Grows h' ∧ Deathless r ∧ h'.Sound (resultStakes Answer.stakes r ++ σ) := by
  cases request with
  | kind c => exact ⟨.refl h, (settles_ask (deathless_kind h c) (fun _ => rfl) σ hs).2⟩
  | flags c => exact ⟨.refl h, (settles_ask (deathless_map_scalar h c _) (fun _ => rfl) σ hs).2⟩
  | toInt c => exact ⟨.refl h, (settles_ask (deathless_map_scalar h c _) (fun _ => rfl) σ hs).2⟩
  | toNum c => exact ⟨.refl h, (settles_ask (deathless_map_scalar h c _) (fun _ => rfl) σ hs).2⟩
  | toBytes c => exact ⟨.refl h, (settles_ask (deathless_toBytes h c) (fun _ => rfl) σ hs).2⟩
  | className c => exact ⟨.refl h, (settles_ask (deathless_className h c) (fun _ => rfl) σ hs).2⟩
  | deref c => exact ⟨deref_grows h c, (settles_deref h c σ hs).2⟩
  | newRef c => exact ⟨newRef_grows h c, (settles_newRef h c σ hs).2⟩
  | _ => cases hreads

end Heap

/-! ## Quiet crossings -/

/-- A crossing after which no error is pending, and which nothing died of, comes down to the answer. -/
theorem World.RunsOn.run_crossWith_quiet {setup : Setup} {h h₁ : Heap}
    {r : Except Fault (Answer CellId shape)} (hr : w.RunsOn s setup h)
    (hanswer : (Heap.answer setup (request.map Handle.cell)).run h = (r, h₁)) (hq : h₁.Quiet)
    (hdeathless : Heap.Deathless r) :
    (crossWith read s operation request).run w =
      ((handled s r).mapError (Fault.toHostError operation),
        w.put s h₁ (HostM.stakesOf (handled s r)).length) := by
  rw [hr.run_crossWith read operation hanswer hq.run_takeError]
  rcases r with fault | answer
  · cases fault with
    | died value => cases hdeathless _ rfl
    | _ => rfl
  · have hexchanged : exchanged s (handled s (.ok answer)) (handledError s (.ok none)) =
        HostM.stakesOf (handled s (.ok answer)) := List.append_nil _
    rw [hexchanged]
    rfl

/-- A question after which the heap is as quiet as before leaves the world as it is. -/
theorem World.RunsOn.run_crossWith_asked {setup : Setup} {h : Heap} {answer : Answer CellId shape}
    (hr : w.RunsOn s setup h) (hq : h.Quiet) (hstakes : answer.stakes = [])
    (hanswer : (Heap.answer setup (request.map Handle.cell)).run h = (.ok answer, h)) :
    (crossWith read s operation request).run w = (.ok (answer.map fun c => ⟨s, c⟩), w) := by
  have hnone : HostM.stakesOf (handled s (.ok answer)) = [] := by
    rw [show HostM.stakesOf (handled s (.ok answer)) = _ from Answer.stakes_map _ answer, hstakes,
      List.map_nil]
  rw [hr.run_crossWith_quiet hanswer hq (Heap.deathless_ok answer), hnone, List.length_nil, hr.put_self]
  rfl

theorem World.RunsOn.crossed {setup : Setup} {h : Heap} {answer : Answer Handle shape} (hr : w.RunsOn s setup h)
    (hrun : (crossWith read s operation request).run w = (.ok answer, w')) :
    ∃ a h', (Heap.answer setup (request.map Handle.cell)).run h = (.ok a, h') ∧
      answer = a.map (fun c => ⟨s, c⟩) ∧ w' = w.put s h' a.stakes.length := by
  have hexchange := crossWith_ok hrun
  cases hanswer : (Heap.answer setup (request.map Handle.cell)).run h with
  | mk r h₁ =>
    cases htake : Heap.takeError.run h₁ with
    | mk pending h₂ =>
      rw [hr.run_exchange hanswer htake] at hexchange
      rcases r with e | a
      · cases hexchange
      rcases pending with e | _ | c
      · cases hexchange
      · obtain rfl := Heap.run_takeError_none htake
        refine ⟨a, h₂, rfl, ?_, ?_⟩
        · have hsame := congrArg (fun p => p.1.toOption.bind fun r => r.1.toOption) hexchange
          exact (Option.some.inj hsame).symm
        · rw [exchanged_answer, List.length_map] at hexchange
          exact (congrArg Prod.snd hexchange).symm
      · cases hexchange

/-- The session runs, and no error is pending in it. -/
def World.Calm (w : World) (s : SessionId) : Prop :=
  ∃ setup h σ, w.RunsOn s setup h ∧ h.Sound σ ∧ h.Quiet

/-- How a crossing that reads comes out does not depend on how error values are read. -/
theorem World.Calm.crossWith (hcalm : w.Calm s) (operation : String)
    (request : Request Handle shape) (hreads : request.reads = true) : ∃ result w', w'.Calm s ∧
      ∀ read, (crossWith read s operation request).run w = (result, w') := by
  obtain ⟨setup, h, σ, hr, hs, hq⟩ := hcalm
  have hmap : (request.map Handle.cell).reads = true := by cases request <;> first | rfl | cases hreads
  have hanswer : Ends (Heap.answer setup (request.map Handle.cell)) h _ := Heap.answer_reads hmap hs
  unfold Ends at hanswer
  cases hrun : (Heap.answer setup (request.map Handle.cell)).run h with
  | mk r h₁ =>
    rw [hrun] at hanswer
    obtain ⟨hg, hdeathless, hs₁⟩ := hanswer
    exact ⟨_, _, ⟨setup, h₁, _, hr.put h₁ _, hs₁, hq.grows hg⟩, fun read =>
      hr.run_crossWith_quiet hrun (hq.grows hg) hdeathless⟩

theorem World.Calm.bind {f g : Answer Handle shape → HostM β} (hcalm : w.Calm s)
    (request : Request Handle shape) (hreads : request.reads = true)
    (hf : ∀ a w', w'.Calm s → (∀ h ∈ a.stakes, h.session = s) → (f a).run w' = (g a).run w') :
    (Embedding.crossWith read s operation request >>= f).run w =
      (Embedding.crossWith read' s operation request >>= g).run w := by
  obtain ⟨result, w', hcalm', hrun⟩ := hcalm.crossWith operation request hreads
  rw [run_bind, run_bind, hrun, hrun]
  cases result with
  | error e => rfl
  | ok a => exact hf a w' hcalm' (crossWith_session (hrun read))

theorem run_holding_congr {x y : HostM α} (hs : List Handle) (hrun : x.run w = y.run w) :
    (HostM.holding hs x).run w = (HostM.holding hs y).run w := by
  rw [HostM.run_holding, HostM.run_holding, hrun]

theorem run_orRelease_congr {x y : HostM α} (hs : List Handle) (hrun : x.run w = y.run w) :
    (HostM.orRelease hs x).run w = (HostM.orRelease hs y).run w := by
  rw [HostM.run_orRelease, HostM.run_orRelease, hrun]

/-! ## Values -/

section
variable (read read' : Handle → HostM Value) {h : Handle}

theorem run_scalarValueWith (hcalm : w.Calm h.session) :
    (scalarValueWith (crossWith read) h).run w = (scalarValueWith (crossWith read') h).run w := by
  refine hcalm.bind (.flags h) rfl fun flags w' hcalm' _ => ?_
  split
  · exact hcalm'.bind (.toInt h) rfl fun _ _ _ _ => rfl
  split
  · exact hcalm'.bind (.toInt h) rfl fun _ _ _ _ => rfl
  split
  · exact hcalm'.bind (.toNum h) rfl fun _ _ _ _ => rfl
  split
  · exact hcalm'.bind (.toBytes h) rfl fun _ _ _ _ => rfl
  · rfl

theorem run_referenceValueWith (hcalm : w.Calm h.session) :
    (referenceValueWith (crossWith read) h).run w =
      (referenceValueWith (crossWith read') h).run w := by
  refine hcalm.bind (.className h) rfl fun className w₁ hcalm₁ _ => ?_
  cases className with
  | some className =>
    refine hcalm₁.bind (.deref h) rfl fun target w₂ hcalm₂ _ => run_holding_congr _ ?_
    exact hcalm₂.bind (.newRef target) rfl fun _ _ _ _ => rfl
  | none =>
    -- the question after the kind goes to the session of the target, which is the same one
    refine hcalm₁.bind (.deref h) rfl fun target w₂ hcalm₂ htarget => run_orRelease_congr _ ?_
    have hcalm₂ : w₂.Calm target.session := (htarget target (List.mem_cons_self ..)).symm ▸ hcalm₂
    exact hcalm₂.bind (.kind target) rfl fun _ _ _ _ => rfl

theorem run_valueWith (hcalm : w.Calm h.session) :
    (valueWith (crossWith read) h).run w = (valueWith (crossWith read') h).run w := by
  refine hcalm.bind (.kind h) rfl fun kind w' hcalm' _ => ?_
  cases kind with
  | scalar => exact run_scalarValueWith read read' hcalm'
  | ref => exact run_referenceValueWith read read' hcalm'
  | _ => rfl

end

theorem run_valueWithin (depth : Nat) {h : Handle} (hcalm : w.Calm h.session) :
    (valueWithin (depth + 1) h).run w = h.value.run w :=
  run_valueWith (valueWithin depth) (valueWithin maxErrors) hcalm

end Embedding
