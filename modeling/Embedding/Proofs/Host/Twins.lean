import Embedding.Proofs.Heap.Turning
import Embedding.Proofs.Host.Reading

/-!
# The place of an iteration is not seen

Two worlds that differ in the places of iterations give the same values for the same cells.
-/

namespace Embedding

variable {α β : Type} {w w' : World} {s : SessionId} {operation : String} {shape : Shape}
  {read read' : Handle → HostM Value} {c : Handle}

namespace Heap

variable {g h : Heap} {S : List CellId}

theorem blind_reads {setup : Setup} {shape : Shape} {request : Request CellId shape}
    (ht : Turned S g h) (hreads : request.reads = true) :
    Turned.Blind (answer setup request) g h := by
  cases request with
  | kind c => exact blind_query ht (ht.kind c)
  | flags c => exact blind_query ht (congrArg (fun r => do return (← r).flags) (ht.scalar c))
  | toInt c => exact blind_query ht (congrArg (fun r => do return (← r).toInt) (ht.scalar c))
  | toNum c => exact blind_query ht (congrArg (fun r => do return (← r).toNum) (ht.scalar c))
  | toBytes c => exact blind_query ht (ht.toBytes c)
  | className c => exact blind_query ht (ht.className c)
  | deref c =>
    change Turned.Blind (deref c) g h
    unfold Turned.Blind deref
    rw [run_bind, run_bind, run_query, run_query, ht.target]
    cases g.target c with
    | error e => exact ⟨rfl, S, ht⟩
    | ok target =>
      have hretain := blind_retain ht target
      unfold Turned.Blind at hretain
      dsimp only
      rw [run_bind, run_bind]
      generalize (retain target).run g = p at hretain
      generalize (retain target).run h = q at hretain
      obtain ⟨r, g'⟩ := p
      obtain ⟨r', h'⟩ := q
      obtain ⟨rfl, ht'⟩ := hretain
      cases r' <;> exact ⟨rfl, ht'⟩
  | newRef c =>
    change Turned.Blind (newRef c) g h
    unfold Turned.Blind newRef
    have hretain := blind_retain ht c
    unfold Turned.Blind at hretain
    rw [run_bind, run_bind]
    generalize (retain c).run g = p at hretain
    generalize (retain c).run h = q at hretain
    obtain ⟨r, g'⟩ := p
    obtain ⟨r', h'⟩ := q
    obtain ⟨rfl, S', ht'⟩ := hretain
    cases r' with
    | error e => exact ⟨rfl, S', ht'⟩
    | ok _ => exact ⟨congrArg (Except.ok ∘ CellId.mk) ht'.size, S', ht'.allocate _⟩
  | _ => cases hreads

end Heap

/-! ## Worlds -/

/-- The worlds differ in places of iterations of the session at most, and no error is pending. -/
def World.Twins (s : SessionId) (w w' : World) : Prop :=
  ∃ setup g h σ S, w.RunsOn s setup g ∧ w' = w.put s h 0 ∧ Heap.Turned S g h ∧ g.Sound σ ∧ g.Quiet

theorem World.Twins.crossWith (ht : World.Twins s w w') (read : Handle → HostM Value)
    (operation : String) (request : Request Handle shape) (hreads : request.reads = true) :
    ∃ result w₁ w₁', (crossWith read s operation request).run w = (result, w₁) ∧
      (crossWith read s operation request).run w' = (result, w₁') ∧ World.Twins s w₁ w₁' := by
  obtain ⟨setup, g, h, σ, S, hr, rfl, ht, hs, hq⟩ := ht
  have hmap : (request.map Handle.cell).reads = true := by cases request <;> first | rfl | cases hreads
  have hblind : Heap.Turned.Blind (Heap.answer setup (request.map Handle.cell)) g h :=
    Heap.blind_reads ht hmap
  have hanswer : Ends (Heap.answer setup (request.map Handle.cell)) g _ := Heap.answer_reads hmap hs
  unfold Heap.Turned.Blind at hblind
  unfold Ends at hanswer
  cases hrun : (Heap.answer setup (request.map Handle.cell)).run g with
  | mk r g₁ =>
    cases hrun' : (Heap.answer setup (request.map Handle.cell)).run h with
    | mk r' h₁ =>
      rw [hrun, hrun'] at hblind
      rw [hrun] at hanswer
      obtain ⟨rfl, S', ht'⟩ := hblind
      obtain ⟨hg, hdeathless, hs₁⟩ := hanswer
      have hq₁ := hq.grows hg
      refine ⟨_, _, _, hr.run_crossWith_quiet hrun hq₁ hdeathless,
        (hr.put h 0).run_crossWith_quiet hrun' (ht'.quiet hq₁) hdeathless, ?_⟩
      refine ⟨setup, g₁, h₁, _, S', hr.put g₁ _, ?_, ht', hs₁, hq₁⟩
      rw [World.put_put, World.put_put, Nat.zero_add, Nat.add_zero]

theorem World.Twins.bind {f : Answer Handle shape → HostM β} (ht : World.Twins s w w')
    (request : Request Handle shape) (hreads : request.reads = true)
    (hf : ∀ a w₁ w₁', World.Twins s w₁ w₁' → (∀ h ∈ a.stakes, h.session = s) →
      ((f a).run w₁').1 = ((f a).run w₁).1) :
    ((Embedding.crossWith read s operation request >>= f).run w').1 =
      ((Embedding.crossWith read s operation request >>= f).run w).1 := by
  obtain ⟨result, w₁, w₁', hrun, hrun', ht'⟩ := ht.crossWith read operation request hreads
  rw [run_bind, run_bind, hrun, hrun']
  cases result with
  | error e => rfl
  | ok a => exact hf a w₁ w₁' ht' (crossWith_session hrun)

theorem fst_run_holding {x : HostM α} (hs : List Handle) (hrun : (x.run w').1 = (x.run w).1) :
    ((HostM.holding hs x).run w').1 = ((HostM.holding hs x).run w).1 := by
  rw [HostM.run_holding, HostM.run_holding]
  exact hrun

theorem fst_run_orRelease {x : HostM α} (hs : List Handle) (hrun : (x.run w').1 = (x.run w).1) :
    ((HostM.orRelease hs x).run w').1 = ((HostM.orRelease hs x).run w).1 := by
  rw [HostM.run_orRelease, HostM.run_orRelease]
  generalize x.run w = p at hrun ⊢
  generalize x.run w' = q at hrun ⊢
  obtain ⟨r, w₁⟩ := p
  obtain ⟨r', w₁'⟩ := q
  obtain rfl : r' = r := hrun
  cases r' <;> rfl

/-! ## Values -/

theorem World.Twins.fst_scalarValue (ht : World.Twins c.session w w') :
    ((scalarValueWith (Embedding.crossWith read) c).run w').1 =
      ((scalarValueWith (Embedding.crossWith read) c).run w).1 := by
  refine ht.bind (.flags c) rfl fun flags w₁ w₁' ht₁ _ => ?_
  split
  · exact ht₁.bind (.toInt c) rfl fun _ _ _ _ _ => rfl
  split
  · exact ht₁.bind (.toInt c) rfl fun _ _ _ _ _ => rfl
  split
  · exact ht₁.bind (.toNum c) rfl fun _ _ _ _ _ => rfl
  split
  · refine ht₁.bind (.toBytes c) rfl fun bytes _ _ _ _ => ?_
    split
    · split <;> rfl
    · rfl
  · rfl

theorem World.Twins.fst_referenceValue (ht : World.Twins c.session w w') :
    ((referenceValueWith (Embedding.crossWith read) c).run w').1 =
      ((referenceValueWith (Embedding.crossWith read) c).run w).1 := by
  refine ht.bind (.className c) rfl fun className w₁ w₁' ht₁ _ => ?_
  cases className with
  | some className =>
    refine ht₁.bind (.deref c) rfl fun target w₂ w₂' ht₂ _ => fst_run_holding _ ?_
    exact ht₂.bind (.newRef target) rfl fun _ _ _ _ _ => rfl
  | none =>
    refine ht₁.bind (.deref c) rfl fun target w₂ w₂' ht₂ htarget => fst_run_orRelease _ ?_
    have ht₂ : World.Twins target.session w₂ w₂' := (htarget target (List.mem_cons_self ..)).symm ▸ ht₂
    refine ht₂.bind (.kind target) rfl fun kind _ _ _ _ => ?_
    cases kind <;> rfl

/-- Where iterations have come to does not matter to the value of a cell. -/
theorem World.Twins.fst_value (ht : World.Twins c.session w w') :
    (c.value.run w').1 = (c.value.run w).1 := by
  refine ht.bind (.kind c) rfl fun kind w₁ w₁' ht₁ _ => ?_
  cases kind with
  | scalar => exact ht₁.fst_scalarValue
  | ref => exact ht₁.fst_referenceValue
  | _ => rfl

end Embedding
