import Embedding.Frame
import Embedding.Proofs.Heap.Errors

/-!
# Stakes of frames

Every action of a body leaves the counts that it adds with the temporaries of its frame. Only a call
of a sub that ends with a freed cell can lose count of cells.
-/

namespace Embedding

namespace Frame

variable {α β : Type}

/-- The stakes that the result of a step in a frame hands over. What a step dies with is a temporary. -/
def endStakes (given : α → List CellId) : Except CellId α → List CellId
  | .ok a => given a
  | .error _ => []

theorem endStakes_nil (r : Except CellId α) : endStakes (fun _ => []) r = [] := by cases r <;> rfl

def Keeps (x : FrameM α) (f : Frame) (taken : List CellId) (given : α → List CellId) : Prop :=
  ∀ σ, f.heap.Sound (f.temporaries ++ (taken ++ σ)) → Ends x f fun r f' =>
    f.heap.Evolves f'.heap ∧ f'.heap.Sound (f'.temporaries ++ (endStakes given r ++ σ))

section
variable {x : FrameM α} {k : α → FrameM β} {f : Frame} {taken : List CellId}
  {given : α → List CellId} {after : β → List CellId}

theorem Keeps.bind (hx : Keeps x f taken given)
    (hk : ∀ a f', x.run f = (.ok a, f') → Keeps (k a) f' (given a) after) :
    Keeps (x >>= k) f taken after := by
  intro σ hs
  have hx := hx σ hs
  unfold Ends at hx
  cases hrun : x.run f with
  | mk r f' =>
    rw [hrun] at hx
    cases r with
    | error e => exact ends_of_run (run_bind_error hrun) hx
    | ok a =>
      unfold Ends
      rw [run_bind_ok hrun]
      obtain ⟨hev, hs'⟩ := hk a f' hrun σ hx.2
      exact ⟨hx.1.trans hev, hs'⟩

theorem Keeps.of_run {x' : FrameM α} (hx : Keeps x f taken given) (hrun : x'.run f = x.run f) :
    Keeps x' f taken given := by
  intro σ hs
  have := hx σ hs
  unfold Ends at this ⊢
  rwa [hrun]

theorem keeps_pure (a : α) (f : Frame) (given : α → List CellId) :
    Keeps (pure a) f (given a) given :=
  fun _ hs => ends_pure ⟨.refl _, hs⟩

theorem keeps_read (g : Frame → α) (f : Frame) :
    Keeps (do return g (← get)) f [] fun _ => [] :=
  fun _ hs => ends_of_run rfl ⟨.refl _, hs⟩

theorem keeps_keep (c : CellId) (f : Frame) : Keeps (keep c) f [c] fun _ => [] :=
  fun _ hs => ends_of_run rfl ⟨.refl _, hs.perm List.perm_middle⟩

theorem keeps_create (content : Content) (hcontent : content.children = []) (f : Frame) :
    Keeps (create content) f [] fun _ => [] :=
  fun _ hs => ends_of_run rfl
    ⟨(Heap.grows_allocate ..).evolves, Heap.Sound.allocate (by rwa [hcontent])⟩

theorem keeps_die (message : String) (f : Frame) (given : α → List CellId) :
    Keeps (die message) f [] given :=
  (keeps_create (.scalar (.ofText message)) rfl f).bind fun _ _ _ _ hs =>
    ends_throw ⟨.refl _, hs⟩

theorem run_onHeap (y : HeapM α) (f : Frame) :
    (onHeap y).run f = (.ok (y.run f.heap).1, { f with heap := (y.run f.heap).2 }) := rfl

theorem keeps_onHeap {y : HeapM α} {k : Except Fault α → FrameM β}
    (hy : Heap.Settles y f.heap given) (hok : ∀ a f', Keeps (k (.ok a)) f' (given a) after)
    (herror : ∀ e f', Keeps (k (.error e)) f' [] after) : Keeps (onHeap y >>= k) f [] after := by
  intro σ hs
  have hy := hy _ hs
  unfold Ends at hy
  cases hrun : y.run f.heap with
  | mk r h' =>
    rw [hrun] at hy
    obtain ⟨hev, hdeathless, hs'⟩ := hy
    have hrun' : (onHeap y).run f = (.ok r, { f with heap := h' }) := by rw [run_onHeap, hrun]
    unfold Ends
    rw [run_bind_ok hrun']
    cases r with
    | ok a =>
      obtain ⟨hev', hs''⟩ :=
        hok a { f with heap := h' } σ (hs'.perm (List.perm_append_comm_assoc ..))
      exact ⟨hev.trans hev', hs''⟩
    | error e =>
      rw [show resultStakes given (.error e) = [] by
        simp [resultStakes, Fault.stakes, hdeathless e rfl]] at hs'
      obtain ⟨hev', hs''⟩ := herror e { f with heap := h' } σ hs'
      exact ⟨hev.trans hev', hs''⟩

theorem keeps_orFault {y : HeapM α} (hy : Heap.Settles y f.heap given) :
    Keeps (orFault y) f [] given :=
  keeps_onHeap hy (fun a f' => keeps_pure a f' given) fun e f' => keeps_die e.message f' given

theorem keeps_orDie {y : HeapM α} (message : String) (hy : Heap.Settles y f.heap given) :
    Keeps (orDie message y) f [] given :=
  keeps_onHeap hy (fun a f' => keeps_pure a f' given) fun _ f' => keeps_die message f' given

theorem keeps_container (c : CellId) (f : Frame) : Keeps (container c) f [] fun _ => [] := by
  refine Keeps.of_run ?_ (run_get_bind _ f)
  split
  · exact keeps_orFault (Heap.settles_ask (Heap.deathless_target f.heap c) fun _ => rfl)
  · exact keeps_pure c f fun _ => []
  · exact keeps_die _ f _

theorem keeps_newRef (c : CellId) (f : Frame) : Keeps (newRef c) f [] fun _ => [] :=
  (keeps_orFault (Heap.settles_newRef f.heap c)).bind fun d f' _ => keeps_keep d f'

theorem keeps_keepIfAny (o : Option CellId) (f : Frame) :
    Keeps (keepIfAny o) f o.toList fun _ => [] := by
  cases o with
  | some c => exact (keeps_keep c f).bind fun d f' _ => keeps_pure (some d) f' fun _ => []
  | none => exact keeps_pure none f fun _ => []

theorem keeps_global (name : String) (f : Frame) : Keeps (global name) f [] fun _ => [] := by
  refine (keeps_orFault (Heap.gives_global f.heap .scalar name true).settles).bind fun o f' _ => ?_
  cases o with
  | some c => exact keeps_keep c f'
  | none => exact keeps_die _ f' _

theorem keeps_storeItems (array : CellId) : ∀ (items : List CellId) (index : Nat) (f : Frame),
    Keeps (storeItems array index items) f [] fun _ => []
  | [], _, f => keeps_pure () f fun _ => []
  | item :: items, index, f =>
    (keeps_orFault (Heap.settles_arrayStore f.heap array index item)).bind fun _ f' _ =>
      keeps_storeItems array items (index + 1) f'

theorem keeps_storeEntries (hash : CellId) : ∀ (pairs : List (String × CellId)) (f : Frame),
    Keeps (pairs.forM fun (key, value) => orFault (Heap.hashStore hash key value)) f [] fun _ => []
  | [], f => keeps_pure () f fun _ => []
  | (key, value) :: pairs, f =>
    (keeps_orFault (Heap.settles_hashStore f.heap hash key value)).bind fun _ f' _ =>
      keeps_storeEntries hash pairs f'

end

end Frame

def Action.called? : {s : Shape} → Action s → Option (Target CellId × List CellId)
  | _, .call target args => some (target, args)
  | _, _ => none

namespace Frame

theorem keeps_perform (call : Target CellId → List CellId → HeapM (List CellId)) {s : Shape}
    (action : Action s) (hcall : action.called? = none) (f : Frame) :
    Keeps (perform call action) f [] fun _ => [] := by
  cases action with
  | liveCells => exact keeps_read (fun f => f.heap.liveCells) f
  | intOf c => exact keeps_read (fun f => (f.heap.toInt c).toOption.getD 0) f
  | numOf c => exact keeps_read (fun f => (f.heap.toNum c).toOption.getD .zero) f
  | textOf c => exact keeps_read (fun f => (f.heap.toText c).toOption.getD "") f
  | numify c =>
    exact keeps_onHeap (Heap.settles_numify f.heap c) (fun x f' => keeps_pure _ f' fun _ => [])
      fun _ f' => keeps_pure _ f' fun _ => []
  | kindOf c => exact keeps_read (fun f => (f.heap.kind c).toOption) f
  | classOf c => exact keeps_read (fun f => (f.heap.className c).toOption.join) f
  | derives className parent => exact keeps_read (fun f => f.heap.derivesFrom className parent) f
  | newUndef | newInt _ | newNum _ | newText _ | newBytes _ | newBool _ | newGlob _ | message _ =>
    exact keeps_create _ rfl f
  | newArray items =>
    exact (keeps_create _ rfl f).bind fun array f₁ _ =>
      (keeps_storeItems array items 0 f₁).bind fun _ f₂ _ => keeps_newRef array f₂
  | newHash pairs =>
    exact (keeps_create _ rfl f).bind fun hash f₁ _ =>
      (keeps_storeEntries hash pairs f₁).bind fun _ f₂ _ => keeps_newRef hash f₂
  | newRef c => exact keeps_newRef c f
  | bless c className =>
    exact (keeps_orDie _ (Heap.settles_bless f.heap c className)).bind fun _ f' _ =>
      keeps_pure c f' fun _ => []
  | fetch c key =>
    exact (keeps_container c f).bind fun hash f₁ _ =>
      (keeps_orDie _ (Heap.settles_hashFetch f₁.heap hash key)).bind fun o f₂ _ =>
        keeps_keepIfAny o f₂
  | store c key value =>
    exact (keeps_container c f).bind fun hash f₁ _ =>
      keeps_orDie _ (Heap.settles_hashStore f₁.heap hash key value)
  | assign target value => exact keeps_orFault (Heap.settles_assign f.heap target value)
  | element c index =>
    exact (keeps_container c f).bind fun array f₁ _ =>
      (keeps_orDie _ (Heap.settles_arrayFetch f₁.heap array index)).bind fun o f₂ _ =>
        keeps_keepIfAny o f₂
  | push c value =>
    refine (keeps_container c f).bind fun array f₁ _ => ?_
    have hlength := Heap.settles_ask (f := (·.arrayLength array))
      (Heap.deathless_arrayLength f₁.heap array) fun _ => rfl
    exact (keeps_orDie _ hlength).bind fun length f₂ _ =>
      keeps_orFault (Heap.settles_arrayStore f₂.heap array length value)
  | length c => exact keeps_read (fun f => Frame.length f.heap c) f
  | global name => exact keeps_global name f
  | setGlobal name value =>
    exact (keeps_global name f).bind fun c f' _ =>
      keeps_orFault (Heap.settles_assign f'.heap c value)
  | codeRef name =>
    refine (keeps_orFault (Heap.gives_global f.heap .code name false).settles).bind
      fun o f₁ _ => ?_
    cases o with
    | some c =>
      exact (keeps_keep c f₁).bind fun c f₂ _ => (keeps_newRef c f₂).bind fun d f₃ _ =>
        keeps_pure (some d) f₃ fun _ => []
    | none => exact keeps_pure none f₁ fun _ => []
  | can className method =>
    refine Keeps.of_run ?_ (run_get_bind _ f)
    split
    · next c _ =>
      exact (keeps_newRef c f).bind fun d f' _ => keeps_pure (some d) f' fun _ => []
    · exact keeps_pure none f fun _ => []
  | call target args => cases hcall
  | setError value => exact keeps_orFault (Heap.settles_setError f.heap value)

end Frame

end Embedding
