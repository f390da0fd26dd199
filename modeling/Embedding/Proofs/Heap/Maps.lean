import Embedding.Proofs.Heap.Contents
import Embedding.Proofs.Heap.Lists
import Embedding.Proofs.Heap.Walks

/-!
# Hashes as dictionaries

A hash whose values read as plain data shows a dictionary, and the operations on hashes are operations
on that dictionary. The place of its iteration goes on from entry to entry and is no part of what it
shows.
-/

namespace Embedding

namespace Dict

variable {α β : Type} {f : α → β} {d : Dict α}

def mapValues (f : α → β) (d : Dict α) : Dict β := d.map fun p => (p.1, f p.2)

theorem keys_mapValues : (d.mapValues f).keys = d.keys := by
  simp [mapValues, keys]

theorem get?_mapValues (key : String) : (d.mapValues f).get? key = (d.get? key).map f := by
  induction d with
  | nil => rfl
  | cons p d ih =>
    obtain ⟨k, v⟩ := p
    simp only [mapValues, List.map_cons, get?] at ih ⊢
    split
    · rfl
    · exact ih

theorem mapValues_insert (key : String) (value : α) :
    (d.insert key value).mapValues f = (d.mapValues f).insert key (f value) := by
  induction d with
  | nil => rfl
  | cons p d ih =>
    obtain ⟨k, v⟩ := p
    simp only [mapValues, List.map_cons, insert] at ih ⊢
    by_cases hk : k = key
    · simp [hk]
    · simp [hk, ih]

theorem mapValues_erase (key : String) :
    (d.erase key).mapValues f = (d.mapValues f).erase key := by
  induction d with
  | nil => rfl
  | cons p d ih =>
    obtain ⟨k, v⟩ := p
    simp only [mapValues, List.map_cons, erase] at ih ⊢
    by_cases hk : k = key
    · simp [hk]
    · simp [hk, ih]

end Dict

namespace Heap

variable {h h' : Heap} {a c value : CellId} {entries entries' : Dict CellId} {v : Value}
  {d d' : Dict Value} {σ : List CellId} {i j : Nat} {key : String}

/-- The hash shows the dictionary, and its iteration is at entry `i`. -/
def MapsAt (h : Heap) (a : CellId) (d : Dict Value) (i : Nat) : Prop :=
  ∃ entries, h.hash a = .ok (entries, i) ∧ entries.mapValues h.reads? = d.mapValues some

def Maps (h : Heap) (a : CellId) (d : Dict Value) : Prop := ∃ i, h.MapsAt a d i

theorem MapsAt.maps (hm : h.MapsAt a d i) : h.Maps a d := ⟨i, hm⟩

theorem MapsAt.keys (hm : h.MapsAt a d i) (hhash : h.hash a = .ok (entries, i)) :
    entries.keys = d.keys := by
  obtain ⟨entries', hhash', hmap⟩ := hm
  cases hhash.symm.trans hhash'
  rw [← Dict.keys_mapValues, hmap, Dict.keys_mapValues]

theorem MapsAt.length (hm : h.MapsAt a d i) (hhash : h.hash a = .ok (entries, i)) :
    entries.length = d.length := by
  have hkeys := congrArg List.length (hm.keys hhash)
  simpa only [Dict.keys, List.length_map] using hkeys

theorem MapsAt.get? (hm : h.MapsAt a d i) (hhash : h.hash a = .ok (entries, i)) (key : String) :
    (entries.get? key).map h.reads? = (d.get? key).map some := by
  obtain ⟨entries', hhash', hmap⟩ := hm
  cases hhash.symm.trans hhash'
  rw [← Dict.get?_mapValues, hmap, Dict.get?_mapValues]

theorem MapsAt.getElem? (hm : h.MapsAt a d i) (hhash : h.hash a = .ok (entries, i)) (n : Nat) :
    entries[n]?.map (fun p => (p.1, h.reads? p.2)) = d[n]?.map fun p => (p.1, some p.2) := by
  obtain ⟨entries', hhash', hmap⟩ := hm
  cases hhash.symm.trans hhash'
  have := congrArg (·[n]?) hmap
  simpa only [Dict.mapValues, List.getElem?_map] using this

theorem MapsAt.nodup (hm : h.MapsAt a d i) (hkeyed : h.Keyed) : d.keys.Nodup := by
  obtain ⟨entries, hhash, hmap⟩ := id hm
  rw [← hm.keys hhash]
  exact hkeyed.hash hhash _ _ rfl

theorem entries_ok (hhash : h.hash a = .ok (entries, i)) : h.entries a = .ok entries := by
  rw [Heap.entries, hhash]
  rfl

theorem ne_hash_of_reads? (hhash : h.hash a = .ok (entries, i)) (hc : h.reads? c = some v) :
    c ≠ a := by
  rintro rfl
  obtain ⟨x, hx, hcontent⟩ := hash_eq_ok_iff.mp hhash
  obtain ⟨s, hs, -⟩ := reads?_eq_some_iff.mp hc
  obtain ⟨y, hy, hcontent'⟩ := scalar_eq_ok_iff.mp hs
  cases hx.symm.trans hy
  rw [hcontent] at hcontent'
  cases hcontent'

theorem mapValues_reads? {same : Sameness} (hmap : entries.mapValues h.reads? = d.mapValues some)
    (hf : h.Firm same h')
    (hsame : ∀ c v, h.reads? c = some v → ∀ x y, same c (.scalar x) y → y = .scalar x)
    (hlive : ∀ p ∈ entries, h'.isLive p.2) : entries.mapValues h'.reads? = d.mapValues some := by
  rw [← hmap]
  refine List.map_congr_left fun p hp => ?_
  have hread : (p.1, h.reads? p.2) ∈ d.mapValues some := hmap ▸ List.mem_map_of_mem hp
  obtain ⟨q, -, hq⟩ := List.mem_map.mp hread
  have hv : h.reads? p.2 = some q.2 := (congrArg Prod.snd hq).symm
  rw [hv, hf.reads? hv (hsame _ _ hv) (hlive p hp)]

theorem MapsAt.write (hhash : h.hash a = .ok (entries, i)) (hhash' : h'.hash a = .ok (entries', j))
    (hmap : entries'.mapValues h.reads? = d'.mapValues some) (hf : h.Firm (Besides a) h')
    (hs : h'.Sound σ) : h'.MapsAt a d' j := by
  refine ⟨entries', hhash', mapValues_reads? hmap hf ?_ fun p hp => hs.isLive_value hhash' hp⟩
  intro c v hc x y hsame
  exact hsame (ne_hash_of_reads? hhash hc)

/-- A hash shows its dictionary as long as it lives and no cell is written. -/
theorem Maps.firm (hm : h.Maps a d) (hf : h.Firm Turning h') (hs : h'.Sound σ)
    (hlive : h'.isLive a) : h'.Maps a d := by
  obtain ⟨i, entries, hhash, hmap⟩ := hm
  obtain ⟨x, hx, hcontent⟩ := hash_eq_ok_iff.mp hhash
  obtain ⟨x', hx'⟩ := exists_cell hlive
  obtain ⟨y, hy, hturn, -⟩ := hf.cells a x' (lt_of_cell? hx) hx'
  cases hx.symm.trans hy
  obtain ⟨j, hhash'⟩ : ∃ j, h'.hash a = .ok (entries, j) := by
    rw [hcontent] at hturn
    obtain hequal | ⟨entries', i', j, hhash', hequal⟩ := hturn
    · exact ⟨i, hash_eq_ok_iff.mpr ⟨x', hx', hequal⟩⟩
    · cases hhash'
      exact ⟨j, hash_eq_ok_iff.mpr ⟨x', hx', hequal⟩⟩
  refine ⟨j, entries, hhash', mapValues_reads? hmap hf ?_ fun p hp => hs.isLive_value hhash' hp⟩
  intro c v _ x y hsame
  exact turning_scalar y hsame

theorem MapsAt.unchanged (hm : h.MapsAt a d i) (hf : h.Firm Unchanged h') (hs : h'.Sound σ)
    (hlive : h'.isLive a) : h'.MapsAt a d i := by
  obtain ⟨entries, hhash, hmap⟩ := hm
  have hhash' := hf.hash_ok hhash hlive
  refine ⟨entries, hhash', mapValues_reads? hmap hf ?_ fun p hp => hs.isLive_value hhash' hp⟩
  intro c v _ x y hsame
  exact hsame

/-! ## Operations -/

theorem MapsAt.run_hashStore (hm : h.MapsAt a d i) (hs : h.Sound σ) (ha : a ∈ σ)
    (hv : h.reads? c = some v) (key : String) :
    ∃ h', (hashStore a key c).run h = (.ok (), h') ∧ h'.Sound σ ∧ h.Firm (Besides a) h' ∧
      h'.MapsAt a (d.insert key v) i := by
  obtain ⟨entries, hhash, hmap⟩ := hm
  obtain ⟨x, hx, hplain⟩ := reads?_eq_some_iff.mp hv
  have hlive : h.isLive c := by
    obtain ⟨y, hy, -⟩ := scalar_eq_ok_iff.mp hx
    exact isLive_of_cell? hy
  obtain ⟨_, h', hrun, -, hs'⟩ := gives_hashStore hhash hlive key σ hs
  have hf := preserves_hashStore h a key c h (firm_refl (fun _ _ _ => rfl) h)
  rw [hrun] at hf
  refine ⟨h', hrun, hs', hf, ?_⟩
  obtain ⟨item, h₁, hcopy, hg₁, hs₁, hitem, -⟩ := run_copy hs hx
  have hhash₁ := hg₁.hash_ok hhash
  obtain ⟨h₂, hset, hhash₂, hf₂, -⟩ := run_setHash hhash₁ (entries.insert key item) i
  have hend : (hashStore a key c).run h = (releaseOption (entries.get? key)).run h₂ := by
    rw [hashStore_eq, run_bind_ok (by rw [run_query, hhash]), run_bind_ok hcopy,
      run_bind_ok (by rw [run_query, hhash₁])]
    exact run_bind_ok hset
  have hshrinks := releaseOption_shrinks h₂ (entries.get? key)
  rw [← hend, hrun] at hshrinks
  have hhash' := hshrinks.hash_ok hhash₂ (hs'.isLive ha)
  -- the entries with the copy read as they should before the old value is released
  have hold : entries.mapValues h₁.reads? = d.mapValues some :=
    mapValues_reads? hmap hg₁.firm (fun _ _ _ _ _ => id) fun p hp => hs₁.isLive_value hhash₁ hp
  have hread : h₁.reads? item = some v := by rw [reads?_of_scalar hitem, hplain]
  refine MapsAt.write hhash₁ hhash' ?_ (hf₂.unchanged hshrinks.firm) hs'
  rw [Dict.mapValues_insert, hold, hread, Dict.mapValues_insert]

theorem MapsAt.run_hashDelete (hm : h.MapsAt a d i) (key : String) : ∃ old h',
    (hashDelete a key).run h = (.ok old, h') ∧ h.Firm (Besides a) h' ∧
      old.map h.reads? = (d.get? key).map some ∧
      ∀ {τ}, h'.Sound τ → h'.MapsAt a (d.erase key) i := by
  obtain ⟨entries, hhash, hmap⟩ := id hm
  obtain ⟨h', hrun, hhash', hf⟩ := Heap.run_hashDelete hhash key
  refine ⟨entries.get? key, h', hrun, hf, hm.get? hhash key, fun hs => ?_⟩
  refine MapsAt.write hhash hhash' ?_ hf hs
  rw [Dict.mapValues_erase, hmap, Dict.mapValues_erase]

theorem run_hashClear (hhash : h.hash a = .ok (entries, i)) (hs : h.Sound σ) (ha : a ∈ σ) :
    ∃ h', (hashClear a).run h = (.ok (), h') ∧ h'.Sound σ ∧ h.Firm (Besides a) h' ∧
      h'.hash a = .ok ([], 0) := by
  obtain ⟨_, h', hrun, -, hs'⟩ := gives_hashClear hhash σ hs
  have hf := preserves_hashClear h a h (firm_refl (fun _ _ _ => rfl) h)
  rw [hrun] at hf
  refine ⟨h', hrun, hs', hf, ?_⟩
  obtain ⟨h₁, hset, hhash₁, -, -⟩ := run_setHash hhash [] 0
  rw [hashClear, run_bind_ok (by rw [run_query, hhash])] at hrun
  dsimp only at hrun
  rw [run_bind_ok hset] at hrun
  have hshrinks := releaseAll_shrinks entries.values h₁
  rw [hrun] at hshrinks
  exact hshrinks.hash_ok hhash₁ (hs'.isLive ha)

theorem MapsAt.run_hashClear (hm : h.MapsAt a d i) (hs : h.Sound σ) (ha : a ∈ σ) :
    ∃ h', (hashClear a).run h = (.ok (), h') ∧ h'.Sound σ ∧ h.Firm (Besides a) h' ∧
      h'.MapsAt a [] 0 := by
  obtain ⟨entries, hhash, -⟩ := hm
  obtain ⟨h', hrun, hs', hf, hhash'⟩ := Heap.run_hashClear hhash hs ha
  exact ⟨h', hrun, hs', hf, [], hhash', rfl⟩

theorem MapsAt.run_hashFetch (hm : h.MapsAt a d i) (hs : h.Sound σ) (key : String) : ∃ found h',
    (hashFetch a key).run h = (.ok found, h') ∧ h.Grows h' ∧ h'.Sound (found.toList ++ σ) ∧
      found.map h.reads? = (d.get? key).map some := by
  obtain ⟨entries, hhash, hmap⟩ := id hm
  have hget := hm.get? hhash key
  cases hfound : entries.get? key with
  | none =>
    rw [hfound] at hget
    refine ⟨none, h, ?_, .refl h, hs, hget⟩
    rw [hashFetch, run_bind_ok (by rw [run_query, entries_ok hhash]), hfound]
    rfl
  | some c =>
    rw [hfound] at hget
    obtain ⟨p, hp, rfl⟩ := List.mem_map.mp (mem_values_of_get? hfound)
    obtain ⟨_, h', hretain, -, hs'⟩ := gives_retain (hs.isLive_value hhash hp) σ hs
    have hg := retain_grows h p.2
    rw [hretain] at hg
    exact ⟨some p.2, h', Heap.run_hashFetch hhash hfound hretain, hg, hs', hget⟩

/-! ## Iteration -/

theorem MapsAt.run_hashRewind (hm : h.MapsAt a d i) (hs : h.Sound σ) : ∃ h',
    (hashRewind a).run h = (.ok (), h') ∧ h.Firm Turning h' ∧ h'.Sound σ ∧ h'.MapsAt a d 0 := by
  obtain ⟨entries, hhash, hmap⟩ := hm
  obtain ⟨h', hrun, hhash', ht⟩ := Heap.run_hashRewind hhash
  obtain ⟨-, -, hs'⟩ := (settles_hashRewind h a σ hs).of_run hrun
  refine ⟨h', hrun, ht.firm, hs', entries, hhash', ?_⟩
  exact mapValues_reads? hmap ht.firm (fun _ _ _ _ y => turning_scalar y)
    fun p hp => hs'.isLive_value hhash' hp

theorem MapsAt.run_hashNext (hm : h.MapsAt a d i) (hs : h.Sound σ) (hi : d[i]? = some (key, v)) :
    ∃ value h', (hashNext a).run h = (.ok (some (key, value)), h') ∧ h.Firm Turning h' ∧
      h'.Sound (value :: σ) ∧ h'.MapsAt a d (i + 1) ∧ h'.reads? value = some v := by
  obtain ⟨entries, hhash, hmap⟩ := id hm
  have hentry := hm.getElem? hhash i
  rw [hi] at hentry
  obtain ⟨⟨k, value⟩, hnext, hequal⟩ := Option.map_eq_some_iff.mp hentry
  obtain ⟨rfl, hread⟩ : k = key ∧ h.reads? value = some v :=
    ⟨congrArg Prod.fst hequal, congrArg Prod.snd hequal⟩
  obtain ⟨_, g, hretain, -, -⟩ :=
    gives_retain (hs.isLive_value hhash (List.mem_of_getElem? hnext)) σ hs
  obtain ⟨h', -, hrun, hhash', -⟩ := Heap.run_hashNext (.refl [] h) hretain hhash hnext
  have hf := turning_hashNext h a
  rw [hrun] at hf
  obtain ⟨-, -, hs'⟩ := (settles_hashNext h a σ hs).of_run hrun
  refine ⟨value, h', hrun, hf, hs', ⟨entries, hhash', ?_⟩, ?_⟩
  · exact mapValues_reads? hmap hf (fun _ _ _ _ y => turning_scalar y)
      fun p hp => hs'.isLive_value hhash' hp
  · exact hf.reads? hread (fun _ y => turning_scalar y) (hs'.isLive (.head _))

theorem MapsAt.run_hashNext_end (hm : h.MapsAt a d i) (hi : d[i]? = none) :
    (hashNext a).run h = (.ok none, h) := by
  obtain ⟨entries, hhash, hmap⟩ := id hm
  have hentry := hm.getElem? hhash i
  rw [hi] at hentry
  exact Heap.run_hashNext_end hhash (Option.map_eq_none_iff.mp hentry)

end Heap

end Embedding
