import Embedding.Proofs.Heap.Firm
import Embedding.Proofs.Heap.Turning

/-!
# Runs of the operations on a hash

A store and a deletion change the entries of the hash and leave the place of its iteration. A rewind
and a step change the place and leave the entries.
-/

namespace Embedding

theorem Dict.get?_of_getElem? {α : Type} {d : Dict α} {key : String} {value : α} {i : Nat}
    (hd : d.keys.Nodup) (hi : d[i]? = some (key, value)) : d.get? key = some value := by
  induction d generalizing i with
  | nil => cases hi
  | cons p d ih =>
    obtain ⟨k, v⟩ := p
    obtain ⟨hk, hd⟩ := List.nodup_cons.1 hd
    cases i with
    | zero => cases hi; simp [get?]
    | succ i =>
      have hne : k ≠ key := by
        rintro rfl
        exact hk (List.mem_map.2 ⟨_, List.mem_of_getElem? hi, rfl⟩)
      simpa [get?, hne] using ih hd hi

namespace Heap

variable {h : Heap} {c value : CellId} {entries : Dict CellId} {cursor : Nat} {key : String}
  {σ : List CellId}

theorem run_setHash (hc : h.hash c = .ok (entries, cursor)) (entries' : Dict CellId) (cursor' : Nat) :
    ∃ h', (setContent c (.hash entries' cursor')).run h = (.ok (), h') ∧
      h'.hash c = .ok (entries', cursor') ∧ h.Firm (Besides c) h' ∧
      (entries' = entries → Turned [c] h h') := by
  obtain ⟨x, hx, hcontent⟩ := hash_eq_ok_iff.1 hc
  refine ⟨_, run_bind_ok (by rw [run_query, cell_ok hx]), ?_, ?_, ?_⟩
  · exact hash_eq_ok_iff.2 ⟨_, (cell?_setCell ..).trans (if_pos ⟨rfl, lt_of_cell? hx⟩), rfl⟩
  · exact firm_setCell hx _ x.refcount (fun _ _ _ _ => rfl) fun hne => absurd rfl hne
  · rintro rfl
    obtain ⟨n, p, content⟩ := x
    obtain rfl : content = _ := hcontent
    exact turned_setCell hx cursor'

theorem Shrinks.hash_ok {h' : Heap} (hs : h.Shrinks h') (hc : h.hash c = .ok (entries, cursor))
    (hlive : h'.isLive c) : h'.hash c = .ok (entries, cursor) := by
  obtain ⟨x', hx'⟩ := exists_cell hlive
  obtain ⟨y, hy, hsame, -⟩ := hs.cells c x' hx'
  obtain ⟨x, hx, hcontent⟩ := hash_eq_ok_iff.1 hc
  obtain rfl : x = y := Option.some.inj (hx.symm.trans hy)
  exact hash_eq_ok_iff.2 ⟨x', hx', hsame.trans hcontent⟩

theorem Firm.hash_ok {base : Heap} (hf : base.Firm Unchanged h)
    (hc : base.hash c = .ok (entries, cursor)) (hlive : h.isLive c) :
    h.hash c = .ok (entries, cursor) := by
  obtain ⟨x, hx, hcontent⟩ := hash_eq_ok_iff.1 hc
  obtain ⟨x', hx', hsame⟩ := hf.content hx hlive
  exact hash_eq_ok_iff.2 ⟨x', hx', hsame.trans hcontent⟩

theorem Firm.hash_turning {base : Heap} (hf : base.Firm Turning h) (hc : base.hash c = .ok (entries, cursor))
    (hlive : h.isLive c) : ∃ cursor', h.hash c = .ok (entries, cursor') := by
  obtain ⟨x, hx, hcontent⟩ := hash_eq_ok_iff.1 hc
  obtain ⟨x', hx'⟩ := exists_cell hlive
  obtain ⟨y, hy, hturn, -⟩ := hf.cells c x' (lt_of_cell? hx) hx'
  cases hx.symm.trans hy
  rw [hcontent] at hturn
  obtain hsame | ⟨_, _, cursor', he, hcontent'⟩ := hturn
  · exact ⟨cursor, hash_eq_ok_iff.2 ⟨x', hx', hsame⟩⟩
  · cases he
    exact ⟨cursor', hash_eq_ok_iff.2 ⟨x', hx', hcontent'⟩⟩

theorem Quiet.besides {h' : Heap} {τ : List CellId} (hq : h.Quiet) (hs : h.Sound σ) (hs' : h'.Sound τ)
    (hc : h.hash c = .ok (entries, cursor)) (hf : h.Firm (Besides c) h') : h'.Quiet := by
  obtain ⟨x, hx, hcontent⟩ := hash_eq_ok_iff.1 hc
  exact hq.writes hs hs' hx (by rw [hcontent]; nofun) hf

theorem run_hashRewind (hc : h.hash c = .ok (entries, cursor)) : ∃ h',
    (hashRewind c).run h = (.ok (), h') ∧ h'.hash c = .ok (entries, 0) ∧ Turned [c] h h' := by
  obtain ⟨h', hrun, hc', -, ht⟩ := run_setHash hc entries 0
  refine ⟨h', ?_, hc', ht rfl⟩
  rw [hashRewind, run_bind_ok (by rw [run_query, hc])]
  exact hrun

theorem Sound.isLive_value (hs : h.Sound σ) (hc : h.hash c = .ok (entries, cursor))
    (hmem : (key, value) ∈ entries) : h.isLive value := by
  obtain ⟨x, hx, hcontent⟩ := hash_eq_ok_iff.1 hc
  refine hs.isLive_child hx ?_
  rw [hcontent]
  exact List.mem_map.2 ⟨_, hmem, rfl⟩

theorem run_hashNext_end (hc : h.hash c = .ok (entries, cursor)) (hend : entries[cursor]? = none) :
    (hashNext c).run h = (.ok none, h) := by
  rw [hashNext, run_bind_ok (by rw [run_query, hc])]
  dsimp only
  rw [hend]
  rfl

/-- A step goes on by one entry and takes a count on its value. Where iterations are does not matter
to the count. -/
theorem run_hashNext {g g' : Heap} {S : List CellId} (ht : Turned S g h)
    (hretain : (retain value).run g = (.ok (), g')) (hc : h.hash c = .ok (entries, cursor))
    (hnext : entries[cursor]? = some (key, value)) : ∃ h' S,
    (hashNext c).run h = (.ok (some (key, value)), h') ∧ h'.hash c = .ok (entries, cursor + 1) ∧
      Turned S g' h' := by
  obtain ⟨h₁, hrun₁, hc₁, -, ht₁⟩ := run_setHash hc entries (cursor + 1)
  have ht₁ : Turned (S ++ [c]) g h₁ := (ht.mono fun x hx => List.mem_append_left _ hx).trans
    ((ht₁ rfl).mono fun x hx => List.mem_append_right _ hx)
  have hblind := blind_retain ht₁ value
  have hgrows := retain_grows h₁ value
  unfold Turned.Blind at hblind
  cases hrun : (retain value).run h₁ with
  | mk r h' =>
    rw [hrun, hretain] at hblind
    rw [hrun] at hgrows
    obtain ⟨rfl, S', ht'⟩ := hblind
    refine ⟨h', S', ?_, hgrows.hash_ok hc₁, ht'⟩
    rw [hashNext, run_bind_ok (by rw [run_query, hc])]
    dsimp only
    rw [hnext]
    dsimp only
    rw [run_bind_ok hrun₁, run_bind_ok hrun]
    rfl

theorem run_hashFetch {h' : Heap} (hc : h.hash c = .ok (entries, cursor))
    (hvalue : entries.get? key = some value) (hrun : (retain value).run h = (.ok (), h')) :
    (hashFetch c key).run h = (.ok (some value), h') := by
  have hentries : h.entries c = .ok entries := by
    rw [Heap.entries, hc]
    rfl
  rw [hashFetch, run_bind_ok (by rw [run_query, hentries]), hvalue]
  dsimp only
  rw [run_bind_ok hrun]
  rfl

theorem run_hashDelete (hc : h.hash c = .ok (entries, cursor)) (key : String) : ∃ h',
    (hashDelete c key).run h = (.ok (entries.get? key), h') ∧
      h'.hash c = .ok (entries.erase key, cursor) ∧ h.Firm (Besides c) h' := by
  obtain ⟨h', hrun, hc', hf, -⟩ := run_setHash hc (entries.erase key) cursor
  refine ⟨h', ?_, hc', hf⟩
  rw [hashDelete, run_bind_ok (by rw [run_query, hc])]
  exact run_bind_ok hrun

theorem run_hashStore (hs : h.Sound σ) (hc : h.hash c = .ok (entries, cursor)) (hmem : c ∈ σ)
    (hv : h.isLive value) (key : String) : ∃ h' item,
    (hashStore c key value).run h = (.ok (), h') ∧ h'.Sound σ ∧
      h'.hash c = .ok (entries.insert key item, cursor) ∧ h.Firm (Besides c) h' := by
  obtain ⟨_, h', hrun, -, hs'⟩ := gives_hashStore hc hv key σ hs
  have hfirm := preserves_hashStore h c key value h (firm_refl (fun _ _ _ => rfl) h)
  rw [hrun] at hfirm
  obtain ⟨item, h₁, hcopy, -, -⟩ := gives_copy hv σ hs
  have hg := (copy_grows h value).of_run hcopy
  obtain ⟨h₂, hset, hc₂, -, -⟩ := run_setHash (hg.hash_ok hc) (entries.insert key item) cursor
  have hend : (hashStore c key value).run h = (releaseOption (entries.get? key)).run h₂ := by
    rw [hashStore_eq, run_bind_ok (by rw [run_query, hc]), run_bind_ok hcopy,
      run_bind_ok (by rw [run_query, hg.hash_ok hc])]
    exact run_bind_ok hset
  have hshrinks := releaseOption_shrinks h₂ (entries.get? key)
  rw [← hend, hrun] at hshrinks
  exact ⟨h', item, hrun, hs', hshrinks.hash_ok hc₂ (hs'.isLive hmem), hfirm⟩

/-! ## Looks -/

theorem Turned.firm {S : List CellId} {h' : Heap} (ht : Turned S h h') : h.Firm Turning h' where
  size := Nat.le_of_eq ht.size.symm
  symbols := ht.symbols
  cells c x' _ hx' := by
    rcases ht.same c with he | ⟨n, p, d, i, j, hg, hh⟩
    · exact ⟨x', he ▸ hx', .inl rfl, rfl⟩
    · cases hx'.symm.trans hh
      exact ⟨_, hg, .inr ⟨d, i, j, rfl, rfl⟩, rfl⟩

theorem turned_hashRewind (h : Heap) (c : CellId) : Turned [c] h ((hashRewind c).run h).2 := by
  cases hc : h.hash c with
  | error e =>
    rw [hashRewind, run_bind_error (by rw [run_query, hc])]
    exact .refl [c] h
  | ok p =>
    obtain ⟨h', hrun, -, ht⟩ := run_hashRewind hc
    rw [hrun]
    exact ht

theorem hashNext_cases (h : Heap) (c : CellId) : ((hashNext c).run h).2 = h ∨
    ∃ h₁ value, Turned [c] h h₁ ∧ ((hashNext c).run h).2 = ((retain value).run h₁).2 := by
  cases hc : h.hash c with
  | error e =>
    rw [hashNext, run_bind_error (by rw [run_query, hc])]
    exact .inl rfl
  | ok p =>
    obtain ⟨entries, cursor⟩ := p
    cases hnext : entries[cursor]? with
    | none =>
      rw [run_hashNext_end hc hnext]
      exact .inl rfl
    | some entry =>
      obtain ⟨h₁, hrun, -, -, ht⟩ := run_setHash hc entries (cursor + 1)
      refine .inr ⟨h₁, entry.2, ht rfl, ?_⟩
      rw [hashNext, run_bind_ok (by rw [run_query, hc])]
      dsimp only
      rw [hnext]
      dsimp only
      rw [run_bind_ok hrun, run_bind]
      rcases (retain entry.2).run h₁ with ⟨_ | _, _⟩ <;> rfl

theorem turning_hashNext (h : Heap) (c : CellId) : h.Firm Turning ((hashNext c).run h).2 := by
  rcases hashNext_cases h c with he | ⟨h₁, value, ht, he⟩ <;> rw [he]
  · exact firm_refl (fun _ _ => .inl rfl) h
  · exact ht.firm.unchanged (retain_grows h₁ value).firm

end Heap

end Embedding
