import Embedding.Proofs.Heap.Scalars

/-!
# Stakes of container operations
-/

namespace Embedding.Heap

variable {h h' : Heap} {c value : CellId} {x : Cell} {items : Array CellId}
  {entries : Dict CellId} {cursor : Nat}

/-! ## Lists of cells -/

theorem set_perm {l : List CellId} {i : Nat} {old : CellId} (hi : l[i]? = some old)
    (new : CellId) : (l.set i new ++ [old]).Perm (l ++ [new]) := by
  simpa [List.flatMap_singleton'] using flatMap_set_perm (fun a => [a]) l i old new hi

theorem dropLast_append_getLast? (l : List CellId) : l.dropLast ++ l.getLast?.toList = l := by
  by_cases hl : l = []
  · rw [hl]; rfl
  · rw [List.getLast?_eq_some_getLast hl]
    exact List.dropLast_concat_getLast hl

theorem values_insert_perm {α : Type} (d : Dict α) (key : String) (new : α) :
    ((d.insert key new).values ++ (d.get? key).toList).Perm (d.values ++ [new]) := by
  induction d with
  | nil => exact .refl _
  | cons p d ih =>
    obtain ⟨k, v⟩ := p
    by_cases hk : k = key
    · simp only [Dict.insert, Dict.get?, Dict.values, hk, if_true, List.map_cons,
        Option.toList_some, List.cons_append]
      have hnew := (List.perm_append_singleton v (d.map (·.2))).cons new
      have hold := (List.perm_append_singleton new (d.map (·.2))).cons v
      exact (hnew.trans (.swap v new _)).trans hold.symm
    · simp only [Dict.insert, Dict.get?, Dict.values, hk, if_false, List.map_cons,
        List.cons_append] at ih ⊢
      exact ih.cons v

theorem values_erase_perm {α : Type} (d : Dict α) (key : String) :
    ((d.erase key).values ++ (d.get? key).toList).Perm d.values := by
  induction d with
  | nil => exact .refl _
  | cons p d ih =>
    obtain ⟨k, v⟩ := p
    by_cases hk : k = key
    · simp [Dict.erase, Dict.get?, Dict.values, hk]
    · simp only [Dict.erase, Dict.get?, Dict.values, hk, if_false, List.map_cons, List.cons_append] at ih ⊢
      exact ih.cons v

/-! ## Arrays -/

theorem items_eq_ok_iff : h.items c = .ok items ↔ ∃ x, h.cell? c = some x ∧ x.content = .array items := by
  unfold Heap.items
  cases hc : h.cell? c with
  | none => simp [cell, hc, bind, Except.bind]
  | some x => cases hx : x.content <;> simp [cell, hc, hx, bind, Except.bind]

theorem Grows.items_ok (hg : h.Grows h') (hc : h.items c = .ok items) : h'.items c = .ok items := by
  obtain ⟨x, hx, hcontent⟩ := items_eq_ok_iff.1 hc
  obtain ⟨n, hn⟩ := hg.cells c x hx
  exact items_eq_ok_iff.2 ⟨_, hn, hcontent⟩

def newIds (h : Heap) (n : Nat) : List CellId := (List.range n).map fun i => ⟨h.cells.size + i⟩

theorem allocUndefs_spec {σ : List CellId} (hs : h.Sound σ) : ∀ n, ∃ h',
    (allocUndefs n).run h = (.ok (newIds h n), h') ∧ h'.cells.size = h.cells.size + n ∧
      h.Grows h' ∧ h'.Sound (newIds h n ++ σ)
  | 0 => ⟨_, rfl, by simp, ⟨rfl, fun c x hx _ => ⟨x, by simpa [cell?] using hx⟩,
      fun c x hx => ⟨x.refcount, by simpa [cell?] using hx⟩, by simp⟩,
      by simpa [newIds] using hs⟩
  | n + 1 => by
    obtain ⟨h', hrun, hsize, hg, hs'⟩ := allocUndefs_spec hs n
    have hheap : (allocUndefs (n + 1)).run h =
        (.ok (newIds h (n + 1)), (h'.allocate (.scalar .undef)).2) := by
      obtain rfl : _ = h' := congrArg Prod.snd hrun
      refine congrArg (Prod.mk _) ?_
      simp only [allocate, allocUndefs, Array.replicate_succ, Array.append_push]
      rfl
    refine ⟨_, hheap, by simp [allocate, hsize]; omega, hg.trans (grows_allocate ..), ?_⟩
    have hs'' : (h'.allocate (.scalar .undef)).2.Sound (_ :: (newIds h n ++ σ)) := Sound.allocate hs'
    have : (h'.allocate (.scalar .undef)).1 = ⟨h.cells.size + n⟩ := by simp [allocate, hsize]
    refine hs''.perm ?_
    rw [this, newIds, newIds, List.range_succ]
    simpa using List.perm_middle.symm

theorem arrayLength_ok (hc : h.items c = .ok items) : h.arrayLength c = .ok items.size := by
  rw [arrayLength, hc]; rfl

theorem deathless_arrayLength (h : Heap) (c : CellId) : Deathless (h.arrayLength c) :=
  (deathless_items h c).bind fun _ _ => deathless_ok _

/-- Puts a cell into an array that reaches up to the index. -/
def place (c : CellId) (index : Nat) (item : CellId) (items : Array CellId) : HeapM Unit := do
  match items[index]? with
  | some old =>
    setContent c (.array (items.setIfInBounds index item))
    release old
  | none => setContent c (.array (items.push item))

theorem arrayStore_eq (c : CellId) (index : Nat) (value : CellId) : arrayStore c index value = (do
    let length ← query (·.arrayLength c)
    let item ← copy value
    let fill ← allocUndefs (index - length)
    let items ← query (·.items c)
    place c index item (items ++ fill)) := rfl

theorem gives_place (hc : h.items c = .ok items) (fill : List CellId) (index : Nat) (item : CellId) :
    Gives (place c index item (items ++ fill)) h (item :: fill) fun _ => [] := by
  obtain ⟨x, hx, hcontent⟩ := items_eq_ok_iff.1 hc
  unfold place
  cases hi : (items ++ fill)[index]? with
  | none =>
    refine gives_setContent _ _ _ hx (by rw [hcontent]; rfl) (List.perm_iff_count.2 fun a => ?_)
    rw [hcontent]
    simp only [Content.children, Array.toList_push, Array.toList_appendList, List.count_append,
      List.count_cons, List.count_nil]
    omega
  | some old =>
    have hlist : (items.toList ++ fill)[index]? = some old := by
      rw [← Array.toList_appendList, Array.getElem?_toList]
      exact hi
    have hset := gives_setContent (.array ((items ++ fill).setIfInBounds index item)) (item :: fill)
      [old] hx (by rw [hcontent]; rfl) (by
        rw [hcontent]
        refine List.perm_iff_count.2 fun a => ?_
        have := (set_perm hlist item).count_eq a
        simp only [Content.children, Array.toList_setIfInBounds, Array.toList_appendList,
          List.count_append, List.count_cons, List.count_nil] at this ⊢
        omega)
    exact hset.bind fun _ h' _ => gives_release h' old

theorem gives_arrayStore (hc : h.items c = .ok items) (hv : h.isLive value) (index : Nat) :
    Gives (arrayStore c index value) h [] fun _ => [] := by
  rw [arrayStore_eq]
  refine gives_query (arrayLength_ok hc) ((gives_copy hv).bind fun item h₁ hrun₁ => ?_)
  have hc₁ := ((copy_grows h value).of_run hrun₁).items_ok hc
  intro σ hs
  obtain ⟨h₂, hrun₂, -, hg₂, hs₂⟩ := allocUndefs_spec hs (index - items.size)
  have hc₂ := hg₂.items_ok hc₁
  have hplace := gives_query (f := (·.items c))
    (k := fun old => place c index item (old ++ newIds h₁ (index - items.size))) hc₂
    (gives_place hc₂ _ index item)
  obtain ⟨a, h', hrun, hev, hs'⟩ := hplace σ (hs₂.perm List.perm_middle)
  exact ⟨a, h', by rw [run_bind_ok hrun₂]; exact hrun, hg₂.evolves.trans hev, hs'⟩

theorem run_arrayStore_freed (hc : h.items c = .ok items) (hv : ¬ h.isLive value) (index : Nat) :
    (arrayStore c index value).run h = (.error (.freed value), h) := by
  rw [arrayStore, run_bind_ok (by rw [run_query, arrayLength_ok hc])]
  exact run_bind_error (run_copy_freed hv)

theorem settles_arrayStore (h : Heap) (c : CellId) (index : Nat) (value : CellId) :
    Settles (arrayStore c index value) h fun _ => [] := by
  cases hc : h.items c with
  | error e =>
    have hlength : h.arrayLength c = .error e := by rw [arrayLength, hc]; rfl
    exact settles_error (run_bind_error (by rw [run_query, hlength])) (deathless_items h c e hc)
  | ok items =>
    by_cases hv : h.isLive value
    · exact (gives_arrayStore hc hv index).settles
    · exact settles_error (run_arrayStore_freed hc hv index) rfl

theorem settles_arrayFetch (h : Heap) (c : CellId) (index : Nat) :
    Settles (arrayFetch c index) h Option.toList := by
  refine settles_query (deathless_items h c) fun items hc => ?_
  split
  · next item _ =>
    exact (settles_retain h item).bind fun _ h' _ => gives_pure (some item) h' Option.toList
  · exact (gives_pure none h Option.toList).settles

theorem settles_arrayPop (h : Heap) (c : CellId) : Settles (arrayPop c) h Option.toList := by
  refine settles_query (deathless_items h c) fun items hc => Gives.settles ?_
  obtain ⟨x, hx, hcontent⟩ := items_eq_ok_iff.1 hc
  have hset := gives_setContent (.array items.pop) [] items.back?.toList hx (by rw [hcontent]; rfl) (by
      rw [hcontent, ← Array.getLast?_toList]
      simp only [Content.children, Array.toList_pop, dropLast_append_getLast?, List.append_nil]
      exact .refl _)
  exact hset.bind fun _ h' _ => gives_pure items.back? h' Option.toList

theorem gives_arrayClear (hc : h.items c = .ok items) :
    Gives (arrayClear c) h [] fun _ => [] := by
  obtain ⟨x, hx, hcontent⟩ := items_eq_ok_iff.1 hc
  have hset := gives_setContent (.array #[]) [] items.toList hx
    (by rw [hcontent]; rfl) (by rw [hcontent]; simp [Content.children])
  exact gives_query hc (hset.bind fun _ h' _ => gives_releaseAll items.toList h')

theorem settles_arrayClear (h : Heap) (c : CellId) : Settles (arrayClear c) h fun _ => [] := by
  cases hc : h.items c with
  | error e => exact settles_error (run_bind_error (by rw [run_query, hc])) (deathless_items h c e hc)
  | ok items => exact (gives_arrayClear hc).settles

/-! ## Hashes -/

theorem hash_eq_ok_iff : h.hash c = .ok (entries, cursor) ↔
    ∃ x, h.cell? c = some x ∧ x.content = .hash entries cursor := by
  unfold Heap.hash
  cases hc : h.cell? c with
  | none => simp [cell, hc, bind, Except.bind]
  | some x => cases hx : x.content <;> simp [cell, hc, hx, bind, Except.bind]

theorem Grows.hash_ok (hg : h.Grows h') (hc : h.hash c = .ok (entries, cursor)) :
    h'.hash c = .ok (entries, cursor) := by
  obtain ⟨x, hx, hcontent⟩ := hash_eq_ok_iff.1 hc
  obtain ⟨n, hn⟩ := hg.cells c x hx
  exact hash_eq_ok_iff.2 ⟨_, hn, hcontent⟩

theorem settles_hashFetch (h : Heap) (c : CellId) (key : String) :
    Settles (hashFetch c key) h Option.toList := by
  refine settles_query (deathless_entries h c) fun entries hc => ?_
  split
  · next value _ =>
    exact (settles_retain h value).bind fun _ h' _ => gives_pure (some value) h' Option.toList
  · exact (gives_pure none h Option.toList).settles

theorem hashStore_eq (c : CellId) (key : String) (value : CellId) : hashStore c key value = (do
    let _ ← query (·.hash c)
    let item ← copy value
    let (entries, cursor) ← query (·.hash c)
    setContent c (.hash (entries.insert key item) cursor)
    releaseOption (entries.get? key)) := rfl

theorem gives_hashStore (hc : h.hash c = .ok (entries, cursor)) (hv : h.isLive value)
    (key : String) : Gives (hashStore c key value) h [] fun _ => [] := by
  rw [hashStore_eq]
  refine gives_query hc ((gives_copy hv).bind fun item h' hrun => ?_)
  have hc' := ((copy_grows h value).of_run hrun).hash_ok hc
  obtain ⟨x, hx, hcontent⟩ := hash_eq_ok_iff.1 hc'
  have hset := gives_setContent (.hash (entries.insert key item) cursor) [item]
    (entries.get? key).toList hx (by rw [hcontent]; rfl)
    (by rw [hcontent]; exact values_insert_perm entries key item)
  exact gives_query hc' (hset.bind fun _ h'' _ => gives_releaseOption (entries.get? key) h'')

theorem run_hashStore_freed (hc : h.hash c = .ok (entries, cursor)) (hv : ¬ h.isLive value)
    (key : String) : (hashStore c key value).run h = (.error (.freed value), h) := by
  rw [hashStore, run_bind_ok (by rw [run_query, hc])]
  exact run_bind_error (run_copy_freed hv)

theorem settles_hashStore (h : Heap) (c : CellId) (key : String) (value : CellId) :
    Settles (hashStore c key value) h fun _ => [] := by
  cases hc : h.hash c with
  | error e => exact settles_error (run_bind_error (by rw [run_query, hc])) (deathless_hash h c e hc)
  | ok p =>
    by_cases hv : h.isLive value
    · exact (gives_hashStore hc hv key).settles
    · exact settles_error (run_hashStore_freed hc hv key) rfl

theorem settles_hashDelete (h : Heap) (c : CellId) (key : String) :
    Settles (hashDelete c key) h Option.toList := by
  refine settles_query (deathless_hash h c) fun p hc => Gives.settles ?_
  obtain ⟨entries, cursor⟩ := p
  obtain ⟨x, hx, hcontent⟩ := hash_eq_ok_iff.1 hc
  have hset := gives_setContent (.hash (entries.erase key) cursor) [] (entries.get? key).toList hx
    (by rw [hcontent]; rfl) (by
      rw [hcontent]
      simpa [Content.children] using values_erase_perm entries key)
  exact hset.bind fun _ h' _ => gives_pure (entries.get? key) h' Option.toList

theorem gives_hashClear (hc : h.hash c = .ok (entries, cursor)) :
    Gives (hashClear c) h [] fun _ => [] := by
  obtain ⟨x, hx, hcontent⟩ := hash_eq_ok_iff.1 hc
  have hset := gives_setContent (.hash [] 0) [] entries.values hx
    (by rw [hcontent]; rfl) (by rw [hcontent]; simp [Content.children, Dict.values])
  exact gives_query hc (hset.bind fun _ h' _ => gives_releaseAll entries.values h')

theorem settles_hashClear (h : Heap) (c : CellId) : Settles (hashClear c) h fun _ => [] := by
  cases hc : h.hash c with
  | error e => exact settles_error (run_bind_error (by rw [run_query, hc])) (deathless_hash h c e hc)
  | ok p => exact (gives_hashClear hc).settles

theorem settles_hashRewind (h : Heap) (c : CellId) : Settles (hashRewind c) h fun _ => [] := by
  refine settles_query (deathless_hash h c) fun p hc => Gives.settles ?_
  obtain ⟨entries, cursor⟩ := p
  obtain ⟨x, hx, hcontent⟩ := hash_eq_ok_iff.1 hc
  exact gives_setContent _ [] [] hx (by rw [hcontent]; rfl) (by rw [hcontent]; exact .refl _)

def entryStakes (entry : Option (String × CellId)) : List CellId := (entry.map Prod.snd).toList

theorem settles_hashNext (h : Heap) (c : CellId) : Settles (hashNext c) h entryStakes := by
  refine settles_query (deathless_hash h c) fun p hc => ?_
  obtain ⟨entries, cursor⟩ := p
  obtain ⟨x, hx, hcontent⟩ := hash_eq_ok_iff.1 hc
  dsimp only
  split
  · next key value hentry =>
    have hmem : value ∈ (Content.hash entries cursor).children :=
      List.mem_map.2 ⟨_, List.mem_of_getElem? hentry, rfl⟩
    have hset := gives_setContent (.hash entries (cursor + 1)) [] [] hx
      (by rw [hcontent]; rfl) (by rw [hcontent]; exact .refl _)
    refine (hset.bind fun _ h' hrun => ?_).settles
    intro σ hs
    -- the hash still holds the value after its cursor has moved
    have hlive : h'.isLive value := by
      rw [setContent, run_bind_ok (by rw [run_query, cell_ok hx])] at hrun
      obtain rfl : _ = h' := congrArg Prod.snd hrun
      refine hs.isLive_child (c := c) (x := ⟨x.refcount, x.package, .hash entries (cursor + 1)⟩) ?_ hmem
      exact (cell?_setCell ..).trans (if_pos ⟨rfl, lt_of_cell? hx⟩)
    exact ((gives_retain hlive).bind fun _ h'' _ => gives_pure (some (key, value)) h'' entryStakes) σ hs
  · exact (gives_pure none h entryStakes).settles

end Embedding.Heap
