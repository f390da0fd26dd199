import Embedding.Host.Container
import Embedding.Proofs.Host.Cells

/-!
# Accounts of arrays and hashes

A view is lent to its operations. Values that are stored are taken over and used up, also by an
operation that fails.
-/

namespace Embedding

variable {may : Permission} {I : World → List Handle → Prop} {b : List Handle}
  {w w' : World}

theorem handlesOfItems_append (as bs : List Value) :
    Value.handlesOfItems (as ++ bs) = Value.handlesOfItems as ++ Value.handlesOfItems bs := by
  induction as with
  | nil => rfl
  | cons v vs ih => simp [Value.handlesOfItems, ih]

theorem handles_ofOption (v : Option Value) :
    (Value.ofOption v).handles = Value.handlesOfItems v.toList := by
  cases v <;> simp [Value.ofOption, Value.handles, Value.handlesOfItems]

def entryHandles (entry : String × Value) : List Handle := entry.2.handles

def stepHandles {α : Type} (given : α → List Handle) : Option (Except HostError α) → List Handle
  | some r => hostStakes given r
  | none => []

theorem accounts_itemBound (h : Handle) : Accounts I b (HostM.itemBound h) [] fun _ => [] := by
  refine Accounts.get fun w => ?_
  dsimp only
  split <;> exact accounts_pure rfl

theorem accounts_toIndex (key : Key) :
    Accounts I b (ofExcept key.toIndex : HostM Nat) [] fun _ => [] := by
  unfold Key.toIndex
  cases key with
  | index n => exact accounts_pure rfl
  | name s =>
    dsimp only
    split
    · exact accounts_pure rfl
    · exact accounts_throw _

namespace Dealing

variable (hdealing : Dealing may I)
include hdealing

theorem accounts_takeValue? [Reads may] (o : Option Handle) :
    Accounts I b (takeValue? o) o.toList fun v => Value.handlesOfItems v.toList := by
  cases o with
  | none => exact accounts_pure rfl
  | some h =>
    have hvalue := hdealing.holding [h] ((hdealing.accounts_value h).mono (List.subset_append_left _ b))
    exact hvalue.map fun v => by simp [Value.handlesOfItems]

variable [Glances may]

theorem accounts_found {x : HostM (Option Handle)} (hx : Accounts I b x [] Option.toList) :
    Accounts I b (do let item ← x; Value.ofOption <$> takeValue? item) [] Value.handles :=
  hx.bind fun o _ _ _ => (hdealing.accounts_takeValue? o).map handles_ofOption

/-! ## Arrays -/

theorem accounts_arrayGet (a : ArrayView) (index : Nat) :
    Accounts I [a.cell] (a.get index) [] Value.handles :=
  hdealing.accounts_found (hdealing.on (.arrayFetch a.cell index) rfl rfl)

theorem accounts_arraySet (a : ArrayView) [Free may a.cell.session] (index : Nat)
    (v : Value) :
    Accounts I [a.cell] (a.set index v) v.handles fun _ => [] := by
  have hcell : Accounts I (v.handles ++ [a.cell]) (newCell a.cell.session v) [] fun h => [h] :=
    (hdealing.accounts_newCell v).mono (List.subset_append_left ..)
  refine (hdealing.holding v.handles hcell).bind fun item _ _ hrun => ?_
  obtain ⟨_, hrun⟩ := HostM.holding_ok hrun
  have hstore : Accounts I [a.cell, item] (cross a.cell.session "array set"
      (.arrayStore a.cell index item)) [] Answer.stakes :=
    hdealing.among _ (Free.free _ rfl) rfl rfl (by simp [newCell_session hrun])
  exact hdealing.holding [item] (hstore.mono (by simp))

theorem accounts_arrayLength (a : ArrayView) : Accounts I [a.cell] a.length [] fun _ => [] :=
  hdealing.on (.arrayLength a.cell) rfl rfl

theorem accounts_arrayPush (a : ArrayView) [Free may a.cell.session] (v : Value) :
    Accounts I [a.cell] (a.push v) v.handles fun _ => [] := by
  have hlength : Accounts I (v.handles ++ [a.cell]) a.length [] fun _ => [] :=
    (hdealing.accounts_arrayLength a).mono (List.subset_append_right ..)
  exact (hdealing.orRelease v.handles hlength).bind fun index _ _ _ =>
    hdealing.accounts_arraySet a index v

theorem accounts_arrayPushAll (a : ArrayView) [Free may a.cell.session] : ∀ vs : List Value,
    Accounts I [a.cell] (a.pushAll vs) (Value.handlesOfItems vs) fun _ => []
  | [] => accounts_pure rfl
  | v :: vs => by
    have hpush := (hdealing.accounts_arrayPush a v).attempt.frame (unfailing_attempt _)
      (Value.handlesOfItems vs)
    refine hpush.bind fun r _ _ _ => ?_
    cases r with
    | ok _ => exact accounts_arrayPushAll a vs
    | error e => exact hdealing.accounts_releaseThrow _ e

theorem accounts_arrayPop (a : ArrayView) [Free may a.cell.session] :
    Accounts I [a.cell] a.pop [] fun v => Value.handlesOfItems v.toList :=
  (hdealing.upon (.arrayPop a.cell) rfl rfl).bind fun o _ _ _ => hdealing.accounts_takeValue? o

theorem accounts_arrayClear (a : ArrayView) [Free may a.cell.session] :
    Accounts I [a.cell] a.clear [] fun _ => [] :=
  hdealing.upon (.arrayClear a.cell) rfl rfl

end Dealing

/-! ## Walks over arrays -/

theorem ArrayCursor.next_array {c c' : ArrayCursor} {item : Option (Except HostError Value)}
    (hrun : c.next.run w = (.ok (item, c'), w')) : c'.array = c.array := by
  obtain ⟨length, w₁, -, hrun⟩ := run_bind_eq_ok hrun
  cases length with
  | error e => cases hrun; rfl
  | ok length =>
    cases hposition : c.position with
    | none => rw [hposition] at hrun; cases hrun; rfl
    | some index =>
      simp only [hposition] at hrun
      split at hrun
      · obtain ⟨r, w₂, -, hrun⟩ := run_bind_eq_ok hrun
        cases hrun
        rfl
      · cases hrun
        rfl

namespace Dealing

variable (hdealing : Dealing may I) [Glances may]
include hdealing

theorem accounts_arrayNext (c : ArrayCursor) :
    Accounts I [c.array.cell] c.next [] fun p => stepHandles Value.handles p.1 := by
  refine (hdealing.accounts_arrayLength c.array).attempt.bind fun length _ _ _ => ?_
  cases length with
  | error e => exact accounts_pure rfl
  | ok length =>
    cases c.position with
    | none => exact accounts_pure rfl
    | some index =>
      dsimp only
      split
      · exact (hdealing.accounts_arrayGet c.array index).attempt.bind fun r _ _ _ => accounts_pure rfl
      · exact accounts_pure rfl

theorem accounts_arrayCursorToList : ∀ (fuel : Nat) (c : ArrayCursor),
    Accounts I [c.array.cell] (c.toList fuel) [] Value.handlesOfItems
  | 0, _ => accounts_pure rfl
  | fuel + 1, c => by
    refine (hdealing.accounts_arrayNext c).bind fun p _ _ hrun => ?_
    obtain ⟨item, c'⟩ := p
    have hsame := ArrayCursor.next_array hrun
    rcases item with _ | e | v
    · exact accounts_pure rfl
    · exact accounts_throw e
    · have hrest : Accounts I (v.handles ++ [c.array.cell]) (c'.toList fuel) []
          Value.handlesOfItems := by
        rw [← hsame]
        exact (accounts_arrayCursorToList fuel c').mono (List.subset_append_right ..)
      refine (hdealing.orRelease v.handles hrest).bind fun vs _ _ _ => ?_
      exact hdealing.weaken (accounts_pure rfl) List.perm_append_comm fun _ _ _ _ => .refl _

omit [Glances may] in
theorem accounts_arrayCursor (a : ArrayView) :
    Accounts I [a.cell] a.cursor [] fun c => [c.array.cell] :=
  (hdealing.accounts_clone (List.Subset.refl _)).bind fun _ _ _ _ => accounts_pure rfl

theorem accounts_arrayToList (a : ArrayView) :
    Accounts I [a.cell] a.toList [] Value.handlesOfItems := by
  unfold ArrayView.toList
  refine (accounts_itemBound a.cell).bind fun bound _ _ _ => ?_
  refine (hdealing.accounts_arrayCursor a).bind fun c _ _ _ => ?_
  exact hdealing.holding [c.array.cell]
    ((hdealing.accounts_arrayCursorToList bound c).mono (List.subset_append_left ..))

/-! ## Hashes -/

theorem accounts_hashGet (h : HashView) (key : String) :
    Accounts I [h.cell] (h.get key) [] Value.handles :=
  hdealing.accounts_found (hdealing.on (.hashFetch h.cell key) rfl rfl)

theorem accounts_hashSet (h : HashView) [Free may h.cell.session] (key : String)
    (v : Value) :
    Accounts I [h.cell] (h.set key v) v.handles fun _ => [] := by
  have hcell : Accounts I (v.handles ++ [h.cell]) (newCell h.cell.session v) [] fun h => [h] :=
    (hdealing.accounts_newCell v).mono (List.subset_append_left ..)
  refine (hdealing.holding v.handles hcell).bind fun item _ _ hrun => ?_
  obtain ⟨_, hrun⟩ := HostM.holding_ok hrun
  have hstore : Accounts I [h.cell, item] (cross h.cell.session "hash set"
      (.hashStore h.cell key item)) [] Answer.stakes :=
    hdealing.among _ (Free.free _ rfl) rfl rfl (by simp [newCell_session hrun])
  exact hdealing.holding [item] (hstore.mono (by simp))

theorem accounts_hashSetAll (h : HashView) [Free may h.cell.session]
    (entries : List (String × Value)) :
    Accounts I [h.cell] (h.setAll entries) (Value.handlesOfEntries entries) fun _ => [] := by
  induction entries with
  | nil => exact accounts_pure rfl
  | cons entry entries ih =>
    obtain ⟨key, v⟩ := entry
    have hset := (hdealing.accounts_hashSet h key v).attempt.frame (unfailing_attempt _)
      (Value.handlesOfEntries entries)
    refine hset.bind fun r _ _ _ => ?_
    cases r with
    | ok _ => exact ih
    | error e => exact hdealing.accounts_releaseThrow _ e

theorem accounts_hashDelete (h : HashView) [Free may h.cell.session] (key : String) :
    Accounts I [h.cell] (h.delete key) [] fun v => Value.handlesOfItems v.toList :=
  (hdealing.upon (.hashDelete h.cell key) rfl rfl).bind fun o _ _ _ => hdealing.accounts_takeValue? o

end Dealing

/-! ## Walks over hashes -/

/-- The handles of a dictionary after an insertion, which takes the place of what was there. -/
theorem handlesOfEntries_insert (d : Dict Value) (key : String) (v : Value) :
    (Value.handlesOfEntries (d.insert key v) ++
      Value.handlesOfItems (d.get? key).toList).Perm (v.handles ++ Value.handlesOfEntries d) := by
  induction d with
  | nil => simp [Dict.insert, Dict.get?, Value.handlesOfEntries, Value.handlesOfItems]
  | cons p d ih =>
    obtain ⟨k, x⟩ := p
    by_cases hk : k = key
    · simp only [Dict.insert, Dict.get?, hk, if_true, Option.toList_some, Value.handlesOfEntries,
        Value.handlesOfItems, List.append_nil, List.append_assoc]
      exact List.perm_append_comm.append_left v.handles
    · simp only [Dict.insert, Dict.get?, hk, if_false, Value.handlesOfEntries, List.append_assoc]
      refine List.perm_iff_count.2 fun a => ?_
      have := ih.count_eq a
      simp only [List.count_append] at this ⊢
      omega

theorem HashCursor.next_hash {c c' : HashCursor} {entry : Option (Except HostError (String × Value))}
    (hrun : c.next.run w = (.ok (entry, c'), w')) : c'.hash = c.hash := by
  unfold HashCursor.next at hrun
  split at hrun
  · cases hrun; rfl
  · obtain ⟨r, w₁, -, hrun⟩ := run_bind_eq_ok hrun
    rcases r with e | _ | entry <;> cases hrun <;> rfl

theorem hashCursor_hash {h : HashView} {c : HashCursor} (hrun : h.cursor.run w = (.ok c, w')) :
    c.hash = h := by
  cases hrun
  rfl

theorem Cursor.next_cell {c c' : Cursor}
    {item : Option (Except HostError (Key × Value))}
    (hrun : c.next.run w = (.ok (item, c'), w')) : c'.cell = c.cell := by
  cases c with
  | array c =>
    obtain ⟨p, w₁, hnext, hrun⟩ := run_bind_eq_ok hrun
    cases hrun
    exact congrArg ArrayView.cell (c.next_array hnext)
  | hash c =>
    obtain ⟨p, w₁, hnext, hrun⟩ := run_bind_eq_ok hrun
    cases hrun
    exact congrArg HashView.cell (c.next_hash hnext)

namespace Dealing

variable (hdealing : Dealing may I) [Glances may]
include hdealing

theorem accounts_hashStep (c : HashCursor) [Turns may [c.hash.cell]] :
    Accounts I [c.hash.cell] c.step [] fun entry => Value.handlesOfEntries entry.toList := by
  have hnext {f : Option (String × Handle) → HostM (Option (String × Value))}
      (hnone : f none = pure none) (hsome : ∀ key value,
        f (some (key, value)) = do return some (key, ← HostM.holding [value] value.value)) :
      Accounts I [c.hash.cell]
        (cross c.hash.cell.session "hash iterate" (.hashNext c.hash.cell) >>= f) []
        fun entry => Value.handlesOfEntries entry.toList := by
    refine (hdealing.turning (.hashNext c.hash.cell) rfl rfl).bind fun entry _ _ _ => ?_
    rcases entry with _ | ⟨key, value⟩
    · rw [hnone]
      exact accounts_pure rfl
    · have hvalue : Accounts I ([value] ++ [c.hash.cell]) value.value [] Value.handles :=
        (hdealing.accounts_value value).mono (List.subset_append_left ..)
      rw [hsome]
      exact (hdealing.holding [value] hvalue).bind fun v _ _ _ =>
        accounts_pure (by simp [Value.handlesOfEntries])
  unfold HashCursor.step
  split
  · exact (hdealing.turning (.hashRewind c.hash.cell) rfl rfl).bind fun _ _ _ _ =>
      hnext rfl fun _ _ => rfl
  · exact hnext rfl fun _ _ => rfl

theorem accounts_hashNext (c : HashCursor) [Turns may [c.hash.cell]] :
    Accounts I [c.hash.cell] c.next [] fun p => stepHandles entryHandles p.1 := by
  unfold HashCursor.next
  split
  · exact accounts_pure rfl
  · refine (hdealing.accounts_hashStep c).attempt.bind fun r _ _ _ => ?_
    rcases r with e | _ | entry
    · exact accounts_pure rfl
    · exact accounts_pure rfl
    · exact accounts_pure (by
        simp [stepHandles, hostStakes, entryHandles, Value.handlesOfEntries])

theorem accounts_hashCursorToEntries : ∀ (fuel : Nat) (c : HashCursor) [Turns may [c.hash.cell]],
    Accounts I [c.hash.cell] (c.toEntries fuel) [] Value.handlesOfEntries
  | 0, _, _ => accounts_pure rfl
  | fuel + 1, c, _ => by
    refine (hdealing.accounts_hashNext c).bind fun p _ _ hrun => ?_
    obtain ⟨entry, c'⟩ := p
    have hsame := HashCursor.next_hash hrun
    rcases entry with _ | e | ⟨key, v⟩
    · exact accounts_pure rfl
    · exact accounts_throw e
    · have : Turns may [c'.hash.cell] := by rw [hsame]; infer_instance
      have hrest : Accounts I (v.handles ++ [c.hash.cell]) (c'.toEntries fuel) []
          Value.handlesOfEntries := by
        rw [← hsame]
        exact (accounts_hashCursorToEntries fuel c').mono (List.subset_append_right ..)
      refine (hdealing.orRelease v.handles hrest).bind fun vs _ _ _ => ?_
      exact hdealing.weaken (accounts_pure rfl) List.perm_append_comm fun _ _ _ _ => .refl _

theorem accounts_hashCursorToKeys : ∀ (fuel : Nat) (c : HashCursor) [Turns may [c.hash.cell]],
    Accounts I [c.hash.cell] (c.toKeys fuel) [] fun _ => []
  | 0, _, _ => accounts_pure rfl
  | fuel + 1, c, _ => by
    refine (hdealing.accounts_hashNext c).bind fun p _ _ hrun => ?_
    obtain ⟨entry, c'⟩ := p
    have hsame := HashCursor.next_hash hrun
    rcases entry with _ | e | ⟨key, v⟩
    · exact accounts_pure rfl
    · exact accounts_throw e
    · refine (hdealing.accounts_release v.handles).bind fun _ _ _ _ => ?_
      have : Turns may [c'.hash.cell] := by rw [hsame]; infer_instance
      have hrest := accounts_hashCursorToKeys fuel c'
      rw [hsame] at hrest
      exact hrest.bind fun keys _ _ _ => accounts_pure rfl

omit [Glances may] in
theorem accounts_hashCursor (h : HashView) :
    Accounts I [h.cell] h.cursor [] fun c => [c.hash.cell] :=
  (hdealing.accounts_clone (List.Subset.refl _)).bind fun _ _ _ _ => accounts_pure rfl

omit [Glances may] in
theorem accounts_collect : ∀ (rest : List (String × Value)) (entries : Dict Value),
    Accounts I b (HashView.collect rest entries)
      (Value.handlesOfEntries rest ++ Value.handlesOfEntries entries) Value.handlesOfEntries
  | [], _ => accounts_pure rfl
  | (key, v) :: rest, entries => by
    have hrest := accounts_collect rest (entries.insert key v)
    have hinsert := handlesOfEntries_insert entries key v
    have hall : Accounts I b (HashView.collect ((key, v) :: rest) entries)
        (Value.handlesOfItems (entries.get? key).toList ++ (Value.handlesOfEntries rest ++
          Value.handlesOfEntries (entries.insert key v))) Value.handlesOfEntries := by
      unfold HashView.collect
      cases entries.get? key with
      | none => exact hrest
      | some old =>
        have hold := (hdealing.accounts_release (b := b) old.handles).frame (fun _ => ⟨_, _, rfl⟩)
          (Value.handlesOfEntries rest ++ Value.handlesOfEntries (entries.insert key v))
        exact (hdealing.weaken hold (by simp [Value.handlesOfItems]) fun _ _ _ _ => .refl _).bind
          fun _ _ _ _ => hrest
    refine hdealing.weaken hall (List.perm_iff_count.2 fun a => ?_) fun _ _ _ _ => .refl _
    have := hinsert.count_eq a
    simp only [Value.handlesOfEntries, List.count_append] at this ⊢
    omega

theorem accounts_hashToDict (h : HashView) [Turns may [h.cell]] :
    Accounts I [h.cell] h.toDict [] Value.handlesOfEntries := by
  unfold HashView.toDict
  refine (accounts_itemBound h.cell).bind fun bound _ _ _ => ?_
  refine (hdealing.accounts_hashCursor h).bind fun c _ _ hrun => ?_
  obtain rfl := hashCursor_hash hrun
  refine hdealing.holding [c.hash.cell] (Accounts.bind
    ((hdealing.accounts_hashCursorToEntries bound c).mono (List.subset_append_left ..))
    fun entries _ _ _ => ?_)
  exact hdealing.weaken (hdealing.accounts_collect entries []) (by simp [Value.handlesOfEntries])
    fun _ _ _ _ => .refl _

theorem accounts_hashKeys (h : HashView) [Turns may [h.cell]] :
    Accounts I [h.cell] h.keys [] fun _ => [] := by
  unfold HashView.keys
  refine (accounts_itemBound h.cell).bind fun bound _ _ _ => ?_
  refine (hdealing.accounts_hashCursor h).bind fun c _ _ hrun => ?_
  obtain rfl := hashCursor_hash hrun
  exact hdealing.holding [c.hash.cell]
    ((hdealing.accounts_hashCursorToKeys bound c).mono (List.subset_append_left ..))

/-! ## Containers of either sort -/

theorem accounts_containerGet (c : Container) (key : Key) :
    Accounts I [c.cell] (c.get key) [] Value.handles := by
  cases c with
  | array view =>
    exact (accounts_toIndex key).bind fun index _ _ _ => hdealing.accounts_arrayGet view index
  | hash view => exact hdealing.accounts_hashGet view key.toName

theorem accounts_containerSet (c : Container) [Free may c.cell.session] (key : Key)
    (v : Value) :
    Accounts I [c.cell] (c.set key v) v.handles fun _ => [] := by
  cases c with
  | array view =>
    have : Free may view.cell.session := inferInstanceAs (Free may (Container.array view).cell.session)
    have hindex : Accounts I [view.cell] (HostM.orRelease v.handles (ofExcept key.toIndex)) v.handles
        fun _ => v.handles := hdealing.orRelease v.handles (accounts_toIndex key)
    exact hindex.bind fun index _ _ _ => hdealing.accounts_arraySet view index v
  | hash view =>
    have : Free may view.cell.session := inferInstanceAs (Free may (Container.hash view).cell.session)
    exact hdealing.accounts_hashSet view key.toName v

theorem accounts_containerLength (c : Container) : Accounts I [c.cell] c.length [] fun _ => [] := by
  cases c with
  | array view => exact hdealing.accounts_arrayLength view
  | hash view => exact hdealing.on (.hashLength view.cell) rfl rfl

omit [Glances may] in
theorem accounts_containerCursor (c : Container) :
    Accounts I [c.cell] c.cursor [] fun c => [c.cell] := by
  cases c with
  | array view => exact (hdealing.accounts_arrayCursor view).map fun _ => rfl
  | hash view => exact (hdealing.accounts_hashCursor view).map fun _ => rfl

theorem accounts_cursorNext (c : Cursor) [Turns may [c.cell]] :
    Accounts I [c.cell] c.next [] fun p =>
      stepHandles (fun entry : Key × Value => entry.2.handles) p.1 := by
  cases c with
  | array c =>
    refine (hdealing.accounts_arrayNext c).bind fun p _ _ _ => accounts_pure ?_
    rcases p with ⟨_ | _ | _, _⟩ <;> rfl
  | hash c =>
    have : Turns may [c.hash.cell] := inferInstanceAs (Turns may [(Cursor.hash c).cell])
    refine (hdealing.accounts_hashNext c).bind fun p _ _ _ => accounts_pure ?_
    rcases p with ⟨_ | _ | _, _⟩ <;> rfl

end Dealing

end Embedding
