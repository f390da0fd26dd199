import Embedding.Proofs.Heap.Stakes

/-!
# Stakes of scalar operations
-/

namespace Embedding.Heap

variable {h : Heap} {c d dst src : CellId} {x : Cell} {s : Embedding.Scalar}

theorem cell_ok (hc : h.cell? c = some x) : h.cell c = .ok x := cell_eq_ok_iff.2 hc

theorem exists_cell (hc : h.isLive c) : ∃ x, h.cell? c = some x := Option.isSome_iff_exists.1 hc

theorem lt_of_isLive (hc : h.isLive c) : c.index < h.cells.size := by
  obtain ⟨x, hx⟩ := exists_cell hc
  exact lt_of_cell? hx

theorem cell_of_not_live (hc : ¬ h.isLive c) : h.cell c = .error (.freed c) := by
  rw [cell_eq_error_iff]
  exact ⟨by simpa [isLive] using hc, rfl⟩

/-! ## Counts -/

theorem run_retain (hc : h.cell? c = some x) :
    (retain c).run h = (.ok (), h.setCell c (some { x with refcount := x.refcount + 1 })) := by
  rw [retain, run_bind_ok (by rw [run_query, cell_ok hc])]
  rfl

theorem run_retain_freed (hc : ¬ h.isLive c) : (retain c).run h = (.error (.freed c), h) := by
  rw [retain, run_bind_error (by rw [run_query, cell_of_not_live hc])]

theorem gives_retain (hc : h.isLive c) : Gives (retain c) h [] fun _ => [c] := by
  obtain ⟨x, hx⟩ := exists_cell hc
  exact fun σ hs => ⟨(), _, run_retain hx, (grows_recount hx _).evolves, hs.retain hx⟩

theorem settles_retain (h : Heap) (c : CellId) : Settles (retain c) h fun _ => [c] := by
  by_cases hc : h.isLive c
  · exact (gives_retain hc).settles
  · exact settles_error (run_retain_freed hc) rfl

theorem run_release (hc : h.isLive c) :
    (release c).run h = (.ok (), h.drop h.cells.size c) := by
  obtain ⟨x, hx⟩ := exists_cell hc
  rw [release, run_bind_ok (by rw [run_query, cell_ok hx])]
  rfl

theorem gives_release (h : Heap) (c : CellId) : Gives (release c) h [c] fun _ => [] :=
  fun _ hs => ⟨(), _, run_release (hs.isLive (List.mem_cons_self ..)),
    (shrinks_drop _ h c).evolves, hs.drop⟩

theorem gives_releaseAll : ∀ (cs : List CellId) (h : Heap), Gives (releaseAll cs) h cs fun _ => []
  | [], h => gives_pure () h fun _ => []
  | c :: cs, h => by
    change Gives (release c >>= fun _ => releaseAll cs) h ([c] ++ cs) _
    exact ((gives_release h c).frame cs).bind fun _ h' _ => gives_releaseAll cs h'

theorem gives_newScalar (s : Embedding.Scalar) (h : Heap) :
    Gives (newScalar s) h s.ref.toList fun c => [c] :=
  fun _ hs => ⟨_, _, rfl, (grows_allocate h _).evolves, Sound.allocate hs⟩

theorem gives_alloc {content : Content} (hcontent : content.children = []) (h : Heap) :
    Gives (alloc content) h [] fun c => [c] :=
  fun _ hs => ⟨_, _, rfl, (grows_allocate h _).evolves, Sound.allocate (by rwa [hcontent])⟩

/-! ## Values -/

/-- The value of a cell with these contents. -/
def contentValue (c : CellId) : Content → Embedding.Scalar
  | .scalar s => s
  | _ => .ofRef c

theorem contentValue_ref {content : Content} (ht : d ∈ (contentValue c content).ref.toList) :
    d = c ∨ d ∈ content.children := by
  cases content with
  | scalar s => exact .inr ht
  | _ => exact .inl (by simpa [contentValue, Scalar.ofRef, eq_comm] using ht)

theorem takeValue_eq (c : CellId) : takeValue c = do
    let x ← query (·.cell c)
    if let some target := (contentValue c x.content).ref then retain target
    return contentValue c x.content := by
  unfold takeValue
  congr 1

theorem gives_takeValue (hc : h.cell? c = some x) :
    Gives (takeValue c) h [] fun s => s.ref.toList := by
  rw [takeValue_eq]
  intro σ hs
  refine gives_query (cell_ok hc) ?_ σ hs
  have hpure := fun h' => gives_pure (contentValue c x.content) h' fun s => s.ref.toList
  cases ht : (contentValue c x.content).ref with
  | none =>
    have := hpure h
    rwa [ht] at this
  | some target =>
    have hlive : h.isLive target := by
      rcases contentValue_ref (Option.mem_toList.2 ht) with rfl | hm
      · exact isLive_of_cell? hc
      · exact hs.isLive_child hc hm
    refine (gives_retain hlive).bind fun _ h' _ => ?_
    have := hpure h'
    rwa [ht] at this

theorem takeValue_grows (h : Heap) (c : CellId) : Ends (takeValue c) h fun _ h' => h.Grows h' := by
  rw [takeValue_eq]
  by_cases hc : h.isLive c
  · obtain ⟨x, hx⟩ := exists_cell hc
    unfold Ends
    rw [run_bind_ok (by rw [run_query, cell_ok hx])]
    cases (contentValue c x.content).ref with
    | none => exact .refl h
    | some target =>
      by_cases ht : h.isLive target
      · obtain ⟨y, hy⟩ := exists_cell ht
        rw [run_bind_ok (run_retain hy)]
        exact grows_recount hy _
      · rw [run_bind_error (run_retain_freed ht)]
        exact .refl h
  · exact ends_of_run (run_bind_error (by rw [run_query, cell_of_not_live hc])) (.refl h)

theorem gives_copy (hc : h.isLive c) : Gives (copy c) h [] fun d => [d] := by
  obtain ⟨x, hx⟩ := exists_cell hc
  exact (gives_takeValue hx).bind fun s h' _ => gives_newScalar s h'

theorem run_copy_freed (hc : ¬ h.isLive c) : (copy c).run h = (.error (.freed c), h) := by
  rw [copy, takeValue_eq]
  exact run_bind_error (run_bind_error (by rw [run_query, cell_of_not_live hc]))

theorem settles_copy (h : Heap) (c : CellId) : Settles (copy c) h fun d => [d] := by
  by_cases hc : h.isLive c
  · exact (gives_copy hc).settles
  · exact settles_error (run_copy_freed hc) rfl

theorem copy_grows (h : Heap) (c : CellId) : Ends (copy c) h fun _ h' => h.Grows h' :=
  (takeValue_grows h c).bind (fun s h' hg => hg.trans (grows_allocate h' (.scalar s)))
    fun _ _ hg => hg

/-- What a reference tells of its target without a look at what that holds. -/
def appearance? (h : Heap) (c : CellId) : Option (Kind × Option String) :=
  (h.cell? c).map fun x => (x.content.kind, x.package)

/-! ## Assignment -/

theorem scalar_eq_ok_iff : h.scalar c = .ok s ↔ ∃ x, h.cell? c = some x ∧ x.content = .scalar s := by
  unfold Heap.scalar
  cases hc : h.cell? c with
  | none => simp [cell, hc, bind, Except.bind]
  | some x => cases hx : x.content <;> simp [cell, hc, hx, bind, Except.bind]

theorem content_of_scalar (hs : h.scalar c = .ok s) (hx : h.cell? c = some x) :
    x.content = .scalar s := by
  obtain ⟨y, hy, hcontent⟩ := scalar_eq_ok_iff.1 hs
  obtain rfl : x = y := Option.some.inj (hx.symm.trans hy)
  exact hcontent

theorem target_ref {t : CellId} (hc : h.scalar c = .ok s) (href : s.ref = some t) : h.target c = .ok t := by
  obtain ⟨y, hy, hcontent⟩ := scalar_eq_ok_iff.1 hc
  unfold Heap.target
  rw [cell_ok hy]
  dsimp only [bind, Except.bind]
  rw [hcontent]
  dsimp only
  rw [href]
  rfl

theorem scalar_of_target {t : CellId} (ht : h.target c = .ok t) :
    ∃ s, h.scalar c = .ok s ∧ s.ref = some t := by
  unfold Heap.target at ht
  cases hx : h.cell? c with
  | none =>
    rw [cell_eq_error_iff.2 ⟨hx, rfl⟩] at ht
    cases ht
  | some x =>
    rw [cell_ok hx] at ht
    dsimp only [bind, Except.bind] at ht
    cases hcontent : x.content with
    | scalar s =>
      rw [hcontent] at ht
      refine ⟨s, scalar_eq_ok_iff.2 ⟨x, hx, hcontent⟩, ?_⟩
      cases href : s.ref with
      | none => simp only [href] at ht; cases ht
      | some d => simp only [href] at ht; cases ht; rfl
    | _ => rw [hcontent] at ht; cases ht

theorem gives_setContent (content : Content) (taken given : List CellId) (hc : h.cell? c = some x)
    (hslot : content.slot? = x.content.slot?)
    (hp : (content.children ++ given).Perm (x.content.children ++ taken)) :
    Gives (setContent c content) h taken fun _ => given :=
  fun σ hs => ⟨(), _, run_bind_ok (by rw [run_query, cell_ok hc]), evolves_setContent hc hslot,
    hs.setContent hc hslot (by simpa using hp.append_right σ)⟩

def releaseOption (o : Option CellId) : HeapM Unit := do
  if let some c := o then release c

theorem gives_releaseOption (o : Option CellId) (h : Heap) :
    Gives (releaseOption o) h o.toList fun _ => [] := by
  cases o with
  | none => exact gives_pure () h fun _ => []
  | some c => exact gives_release h c

theorem Grows.scalar_ok {h' : Heap} (hg : h.Grows h') (hc : h.scalar c = .ok s) :
    h'.scalar c = .ok s := by
  obtain ⟨x, hx, hcontent⟩ := scalar_eq_ok_iff.1 hc
  obtain ⟨n, hn⟩ := hg.cells c x hx
  exact scalar_eq_ok_iff.2 ⟨_, hn, hcontent⟩

theorem assign_eq (dst src : CellId) : assign dst src = (do
    let _ ← query (·.scalar dst)
    let value ← takeValue src
    let old ← query (·.scalar dst)
    setContent dst (.scalar value)
    releaseOption old.ref) := rfl

theorem gives_assign (hd : h.scalar dst = .ok s) (hsrc : h.isLive src) :
    Gives (assign dst src) h [] fun _ => [] := by
  obtain ⟨y, hy⟩ := exists_cell hsrc
  rw [assign_eq]
  refine gives_query hd ((gives_takeValue hy).bind fun v h' hrun => ?_)
  have hd' := ((takeValue_grows h src).of_run hrun).scalar_ok hd
  obtain ⟨x, hx, hcontent⟩ := scalar_eq_ok_iff.1 hd'
  have hset := gives_setContent (.scalar v) v.ref.toList s.ref.toList hx (by rw [hcontent]; rfl)
    (by rw [hcontent]; exact List.perm_append_comm)
  exact gives_query hd' (hset.bind fun _ h'' _ => gives_releaseOption s.ref h'')

theorem run_assign_freed (hd : h.scalar dst = .ok s) (hsrc : ¬ h.isLive src) :
    (assign dst src).run h = (.error (.freed src), h) := by
  rw [assign, run_bind_ok (by rw [run_query, hd]), takeValue_eq]
  exact run_bind_error (run_bind_error (by rw [run_query, cell_of_not_live hsrc]))

theorem settles_assign (h : Heap) (dst src : CellId) : Settles (assign dst src) h fun _ => [] := by
  cases hd : h.scalar dst with
  | error e =>
    exact settles_error (run_bind_error (by rw [run_query, hd])) (deathless_scalar h dst e hd)
  | ok s =>
    by_cases hsrc : h.isLive src
    · exact (gives_assign hd hsrc).settles
    · exact settles_error (run_assign_freed hd hsrc) rfl

/-! ## Other operations on scalars -/

theorem numified_ref (s : Embedding.Scalar) : s.numified.ref = s.ref := by
  unfold Scalar.numified
  split
  · split
    · rfl
    · dsimp only
      split <;> rfl
  · rfl

theorem settles_numify (h : Heap) (c : CellId) : Settles (numify c) h fun _ => [] := by
  refine settles_query (deathless_scalar h c) fun s hc => ?_
  obtain ⟨x, hx, hcontent⟩ := scalar_eq_ok_iff.1 hc
  have hset := gives_setContent (.scalar s.numified) [] [] hx
    (by rw [hcontent]; rfl) (by rw [hcontent, Content.children, numified_ref]; rfl)
  exact (hset.bind fun _ h' _ => gives_pure s.toNum h' fun _ => []).settles

theorem gives_newRef (hc : h.isLive c) : Gives (newRef c) h [] fun d => [d] :=
  (gives_retain hc).bind fun _ h' _ => gives_newScalar (.ofRef c) h'

theorem settles_newRef (h : Heap) (c : CellId) : Settles (newRef c) h fun d => [d] := by
  by_cases hc : h.isLive c
  · exact (gives_newRef hc).settles
  · exact settles_error (run_bind_error (run_retain_freed hc)) rfl

theorem settles_bless (h : Heap) (c : CellId) (package : String) :
    Settles (bless c package) h fun _ => [] := by
  refine settles_query (deathless_target h c) fun d _ => ?_
  refine settles_query (deathless_cell h d) fun x hx => Gives.settles ?_
  have hx := cell_eq_ok_iff.1 hx
  exact fun σ hs => ⟨(), _, rfl, evolves_setContent hx rfl, hs.setContent hx rfl (.refl _)⟩

theorem settles_deref (h : Heap) (c : CellId) : Settles (deref c) h fun d => [d] :=
  settles_query (deathless_target h c) fun d _ =>
    (settles_retain h d).bind fun _ h' _ => gives_pure d h' fun d => [d]

end Embedding.Heap
