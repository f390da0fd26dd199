import Embedding.Host.Value
import Embedding.Proofs.Heap.Quiet
import Embedding.Proofs.Heap.Trees

/-!
# Arrays as lists

A cell that holds no reference reads as plain data of the host, by whichever of its representations
goes first. An array of such cells shows a list, and the operations on arrays are operations on that
list.
-/

namespace Embedding

/-- What a scalar reads as if it is no reference and its text, where it counts, is well-formed. -/
def Scalar.plain? (x : Scalar) : Option Value :=
  if x.ref.isSome then none
  else if x.truth then some (.bool (x.toInt ≠ 0))
  else if x.int.isSome then some (.int x.toInt)
  else if x.num.isSome then some (.float x.toNum)
  else
    match x.text with
    | some t => if t.utf8 then (Utf8.decode t.bytes).toOption.map .text else some (.bytes t.bytes)
    | none => some .nothing

theorem Value.plain?_scalar {v : Value} {x : Scalar} (hv : v.scalar? = some x) :
    x.plain? = some v := by
  cases v with
  | bool b => cases hv; cases b <;> rfl
  | text t =>
    cases hv
    have hdecode : (Utf8.decode (Utf8.encode t)).toOption.map Value.text = some (.text t) := by
      rw [Utf8.decode_encode]
      rfl
    exact hdecode
  | nothing | int _ | float _ | bytes _ => cases hv; rfl
  | _ => cases hv

theorem Scalar.plain?_handles {x : Scalar} {v : Value} (hv : x.plain? = some v) : v.handles = [] := by
  unfold plain? at hv
  split at hv
  · cases hv
  split at hv
  · cases hv; rfl
  split at hv
  · cases hv; rfl
  split at hv
  · cases hv; rfl
  split at hv
  · split at hv
    · obtain ⟨s, -, rfl⟩ := Option.map_eq_some_iff.mp hv
      rfl
    · cases hv; rfl
  · cases hv; rfl

/-- Stores into a list. A store past the end fills the gap. -/
def Value.storeAt (vs : List Value) (i : Nat) (v : Value) : List Value :=
  (vs ++ List.replicate (i + 1 - vs.length) Value.nothing).set i v

theorem Value.storeAt_lt {vs : List Value} {i : Nat} (hi : i < vs.length) (v : Value) :
    storeAt vs i v = vs.set i v := by
  rw [storeAt, Nat.sub_eq_zero_of_le hi]
  simp

theorem Value.storeAt_ge {vs : List Value} {i : Nat} (hi : vs.length ≤ i) (v : Value) :
    storeAt vs i v = vs ++ List.replicate (i - vs.length) Value.nothing ++ [v] := by
  have hlength : i + 1 - vs.length = (i - vs.length) + 1 := by omega
  rw [storeAt, hlength, List.replicate_succ', ← List.append_assoc, List.set_append_right _ _ (by simp; omega)]
  have hlast : i - (vs ++ List.replicate (i - vs.length) Value.nothing).length = 0 := by
    simp only [List.length_append, List.length_replicate]
    omega
  rw [hlast]
  rfl

namespace Heap

variable {h h' h₁ : Heap} {a c : CellId} {items items' : Array CellId} {v : Value}
  {vs vs' : List Value} {σ : List CellId} {i : Nat}

def reads? (h : Heap) (c : CellId) : Option Value := (h.scalar c).toOption.bind Scalar.plain?

def Lists (h : Heap) (a : CellId) (vs : List Value) : Prop :=
  ∃ items, h.items a = .ok items ∧ items.toList.map h.reads? = vs.map some

theorem reads?_of_scalar {x : Embedding.Scalar} (hc : h.scalar c = .ok x) : h.reads? c = x.plain? := by
  rw [reads?, hc]
  rfl

theorem reads?_eq_some_iff : h.reads? c = some v ↔ ∃ x, h.scalar c = .ok x ∧ x.plain? = some v := by
  constructor
  · intro hv
    obtain ⟨x, hx, hplain⟩ := Option.bind_eq_some_iff.mp hv
    cases hc : h.scalar c with
    | error e => rw [hc] at hx; cases hx
    | ok y =>
      rw [hc] at hx
      cases hx
      exact ⟨_, rfl, hplain⟩
  · rintro ⟨x, hx, hplain⟩
    rw [reads?_of_scalar hx, hplain]

theorem Lists.length (hl : h.Lists a vs) (hitems : h.items a = .ok items) : items.size = vs.length := by
  obtain ⟨items', hitems', hmap⟩ := hl
  cases hitems.symm.trans hitems'
  simpa using congrArg List.length hmap

theorem Lists.unique (hl : h.Lists a vs) (hl' : h.Lists a vs') : vs = vs' := by
  obtain ⟨items, hitems, hmap⟩ := hl
  obtain ⟨items', hitems', hmap'⟩ := hl'
  cases hitems.symm.trans hitems'
  exact (List.map_inj_right fun _ _ => Option.some.inj).1 (hmap.symm.trans hmap')

theorem Lists.getElem? (hl : h.Lists a vs) (hitems : h.items a = .ok items) (i : Nat) :
    items[i]?.map h.reads? = vs[i]?.map some := by
  obtain ⟨items', hitems', hmap⟩ := hl
  cases hitems.symm.trans hitems'
  have := congrArg (·[i]?) hmap
  simpa [List.getElem?_map] using this

theorem reads?_of_mem {cs : List CellId} (hmap : cs.map h.reads? = vs.map some) (hc : c ∈ cs) :
    ∃ v ∈ vs, h.reads? c = some v := by
  have hread : h.reads? c ∈ vs.map some := hmap ▸ List.mem_map_of_mem hc
  obtain ⟨v, hv, hread⟩ := List.mem_map.mp hread
  exact ⟨v, hv, hread.symm⟩

theorem Lists.exists_reads? (hl : h.Lists a vs) (hitems : h.items a = .ok items) (hc : c ∈ items.toList) :
    ∃ v ∈ vs, h.reads? c = some v := by
  obtain ⟨items', hitems', hmap⟩ := hl
  cases hitems.symm.trans hitems'
  exact reads?_of_mem hmap hc

theorem Grows.reads? (hg : h.Grows h') (hc : h.reads? c = some v) : h'.reads? c = some v := by
  obtain ⟨x, hx, hplain⟩ := reads?_eq_some_iff.mp hc
  exact reads?_eq_some_iff.mpr ⟨x, hg.scalar_ok hx, hplain⟩

theorem Firm.reads? {same : Sameness} (hf : h.Firm same h') (hc : h.reads? c = some v)
    (hsame : ∀ x y, same c (.scalar x) y → y = .scalar x) (hlive : h'.isLive c) :
    h'.reads? c = some v := by
  obtain ⟨x, hx, hplain⟩ := reads?_eq_some_iff.mp hc
  exact reads?_eq_some_iff.mpr ⟨x, hf.scalar_ok hx (hsame x) hlive, hplain⟩

theorem Sound.isLive_item (hs : h.Sound σ) (hitems : h.items a = .ok items) (hc : c ∈ items.toList) :
    h.isLive c := by
  obtain ⟨x, hx, hcontent⟩ := items_eq_ok_iff.mp hitems
  refine hs.isLive_child hx ?_
  rw [hcontent]
  exact hc

theorem ne_of_reads? (hitems : h.items a = .ok items) (hc : h.reads? c = some v) : c ≠ a := by
  rintro rfl
  obtain ⟨x, hx, hcontent⟩ := items_eq_ok_iff.mp hitems
  obtain ⟨s, hs, -⟩ := reads?_eq_some_iff.mp hc
  obtain ⟨y, hy, hcontent'⟩ := scalar_eq_ok_iff.mp hs
  cases hx.symm.trans hy
  rw [hcontent] at hcontent'
  cases hcontent'

theorem Lists.write (hitems : h.items a = .ok items) (hitems' : h'.items a = .ok items')
    (hmap : items'.toList.map h.reads? = vs'.map some) (hf : h.Firm (Besides a) h')
    (hs : h'.Sound σ) : h'.Lists a vs' := by
  refine ⟨items', hitems', ?_⟩
  rw [← hmap]
  refine List.map_congr_left fun c hc => ?_
  obtain ⟨v, -, hv⟩ := reads?_of_mem hmap hc
  rw [hv]
  exact hf.reads? hv (fun x y hy => hy (ne_of_reads? hitems hv)) (hs.isLive_item hitems' hc)

theorem Firm.items_ok {same : Sameness} (hf : h.Firm same h') (hitems : h.items a = .ok items)
    (hlive : h'.isLive a) (hsame : ∀ x y, same a x y → Turning a x y) : h'.items a = .ok items := by
  obtain ⟨x, hx, hcontent⟩ := items_eq_ok_iff.mp hitems
  obtain ⟨x', hx'⟩ := exists_cell hlive
  obtain ⟨y, hy, hturn, -⟩ := hf.cells a x' (lt_of_cell? hx) hx'
  cases hx.symm.trans hy
  refine items_eq_ok_iff.mpr ⟨x', hx', ?_⟩
  rw [hcontent] at hturn
  obtain hequal | ⟨entries, i, j, hhash, -⟩ := hsame _ _ hturn
  · exact hequal
  · cases hhash

/-- An array shows its list as long as it lives and no cell is written. -/
theorem Lists.firm {same : Sameness} (hl : h.Lists a vs) (hf : h.Firm same h') (hs : h'.Sound σ)
    (hlive : h'.isLive a) (hsame : ∀ c x y, same c x y → Turning c x y) : h'.Lists a vs := by
  obtain ⟨items, hitems, hmap⟩ := hl
  have hitems' := hf.items_ok hitems hlive (hsame a)
  refine ⟨items, hitems', ?_⟩
  rw [← hmap]
  refine List.map_congr_left fun c hc => ?_
  obtain ⟨v, -, hv⟩ := reads?_of_mem hmap hc
  rw [hv]
  exact hf.reads? hv (fun x y hy => turning_scalar y (hsame _ _ _ hy)) (hs.isLive_item hitems' hc)

theorem Lists.unchanged (hl : h.Lists a vs) (hf : h.Firm Unchanged h') (hs : h'.Sound σ)
    (hlive : h'.isLive a) : h'.Lists a vs := hl.firm hf hs hlive fun _ _ _ => .inl

/-! ## Operations -/

theorem run_setArray (hitems : h.items a = .ok items) (items' : Array CellId) :
    ∃ h', (setContent a (.array items')).run h = (.ok (), h') ∧ h'.items a = .ok items' ∧
      h.Firm (Besides a) h' := by
  obtain ⟨x, hx, -⟩ := items_eq_ok_iff.mp hitems
  refine ⟨_, run_bind_ok (by rw [run_query, cell_ok hx]), ?_, ?_⟩
  · exact items_eq_ok_iff.mpr ⟨_, (cell?_setCell ..).trans (if_pos ⟨rfl, lt_of_cell? hx⟩), rfl⟩
  · exact firm_setCell hx _ x.refcount (fun _ _ _ _ => rfl) fun hne => absurd rfl hne

theorem Shrinks.items_ok (hs : h.Shrinks h') (hitems : h.items a = .ok items) (hlive : h'.isLive a) :
    h'.items a = .ok items := by
  obtain ⟨x', hx'⟩ := exists_cell hlive
  obtain ⟨y, hy, hsame, -⟩ := hs.cells a x' hx'
  obtain ⟨x, hx, hcontent⟩ := items_eq_ok_iff.mp hitems
  cases hx.symm.trans hy
  exact items_eq_ok_iff.mpr ⟨x', hx', hsame.trans hcontent⟩

theorem reads?_newIds {n : Nat} (hc : c ∈ newIds h n) :
    ((allocUndefs n).run h).2.reads? c = some .nothing := by
  obtain ⟨i, hi, rfl⟩ := List.mem_map.mp hc
  have hlt := List.mem_range.mp hi
  refine reads?_of_scalar (x := .undef) (scalar_eq_ok_iff.mpr ⟨⟨1, none, .scalar .undef⟩, ?_, rfl⟩)
  rw [cell?_allocUndefs, if_neg (by simp), if_pos (by simpa using hlt)]

theorem run_place {item : CellId} {fill : List CellId} (hs : h.Sound (item :: fill ++ σ))
    (hitems : h.items a = .ok items) (ha : a ∈ σ) (i : Nat) :
    ∃ h', (place a i item (items ++ fill)).run h = (.ok (), h') ∧ h'.Sound σ ∧
      h.Firm (Besides a) h' ∧ h'.items a = .ok (if i < (items ++ fill).size
        then (items ++ fill).setIfInBounds i item else (items ++ fill).push item) := by
  obtain ⟨_, h', hrun, -, hs'⟩ := gives_place hitems fill i item σ hs
  have hlive : h'.isLive a := hs'.isLive ha
  refine ⟨h', hrun, hs', ?_⟩
  unfold place at hrun
  cases hi : (items ++ fill)[i]? with
  | none =>
    rw [hi] at hrun
    obtain ⟨h₁, hset, hitems₁, hf⟩ := run_setArray hitems ((items ++ fill).push item)
    cases hset.symm.trans hrun
    rw [if_neg (Nat.not_lt.mpr (Array.getElem?_eq_none_iff.mp hi))]
    exact ⟨hf, hitems₁⟩
  | some old =>
    rw [hi] at hrun
    obtain ⟨h₁, hset, hitems₁, hf⟩ := run_setArray hitems ((items ++ fill).setIfInBounds i item)
    dsimp only at hrun
    rw [run_bind_ok hset] at hrun
    have hshrinks := release_shrinks h₁ old
    rw [hrun] at hshrinks
    rw [if_pos (Array.getElem?_eq_some_iff.mp hi).1]
    exact ⟨hf.unchanged hshrinks.firm, hshrinks.items_ok hitems₁ hlive⟩

/-- A store first copies the scalar and fills the gap, and then writes the array. -/
theorem run_arrayStore_place {x : Embedding.Scalar} (hs : h.Sound σ) (hitems : h.items a = .ok items)
    (hc : h.scalar c = .ok x) (i : Nat) : ∃ item h₁ h₂, (copy c).run h = (.ok item, h₁) ∧ h.Grows h₁ ∧
      h₁.scalar item = .ok x ∧
      (allocUndefs (i - items.size)).run h₁ = (.ok (newIds h₁ (i - items.size)), h₂) ∧ h₁.Grows h₂ ∧
      h₂.Sound (item :: newIds h₁ (i - items.size) ++ σ) ∧ h₂.items a = .ok items ∧
      (arrayStore a i c).run h = (place a i item (items ++ newIds h₁ (i - items.size))).run h₂ := by
  obtain ⟨item, h₁, hcopy, hg₁, hs₁, hitem, -⟩ := run_copy hs hc
  obtain ⟨h₂, hfill, -, hg₂, hs₂⟩ := allocUndefs_spec hs₁ (i - items.size)
  have hitems₂ := (hg₁.trans hg₂).items_ok hitems
  refine ⟨item, h₁, h₂, hcopy, hg₁, hitem, hfill, hg₂, hs₂.perm List.perm_middle, hitems₂, ?_⟩
  rw [arrayStore_eq, run_bind_ok (by rw [run_query, arrayLength_ok hitems]), run_bind_ok hcopy,
    run_bind_ok hfill, run_bind_ok (by rw [run_query, hitems₂])]

theorem Lists.run_arrayStore (hl : h.Lists a vs) (hs : h.Sound σ) (ha : a ∈ σ)
    (hv : h.reads? c = some v) (i : Nat) :
    ∃ h', (arrayStore a i c).run h = (.ok (), h') ∧ h'.Sound σ ∧ h.Firm (Besides a) h' ∧
      h'.Lists a (Value.storeAt vs i v) := by
  obtain ⟨items, hitems, hmap⟩ := hl
  have hsize : items.size = vs.length := by simpa using congrArg List.length hmap
  obtain ⟨x, hx, hplain⟩ := reads?_eq_some_iff.mp hv
  obtain ⟨item, h₁, h₂, -, hg₁, hitem, hfill, hg₂, hs₂, hitems₂, hrun⟩ :=
    run_arrayStore_place hs hitems hx i
  have hg := hg₁.trans hg₂
  obtain ⟨h', hplace, hs', hf, hitems'⟩ := run_place hs₂ hitems₂ ha i
  have hfirm : h.Firm (Besides a) h₂ := (firm_refl (fun _ _ _ => rfl) h).unchanged hg.firm
  refine ⟨h', hrun.trans hplace, hs', hfirm.besides_trans hf, ?_⟩
  -- what is in the array before the place is written: the old items and the fill
  have hold : items.toList.map h₂.reads? = vs.map some := by
    rw [← hmap]
    refine List.map_congr_left fun d hd => ?_
    obtain ⟨u, -, hu⟩ := reads?_of_mem hmap hd
    rw [hu]
    exact hg.reads? hu
  have hnew : (newIds h₁ (i - items.size)).map h₂.reads? =
      (List.replicate (i - vs.length) Value.nothing).map some := by
    rw [List.map_replicate, List.eq_replicate_iff]
    constructor
    · simp [newIds, hsize]
    · intro r hr
      obtain ⟨d, hd, rfl⟩ := List.mem_map.mp hr
      have hread := reads?_newIds hd
      rwa [hfill] at hread
  have hitem₂ : h₂.reads? item = some v := by
    rw [reads?_of_scalar (hg₂.scalar_ok hitem), hplain]
  refine Lists.write hitems₂ hitems' ?_ hf hs'
  have hall : (items ++ newIds h₁ (i - items.size)).toList.map h₂.reads? =
      (vs ++ List.replicate (i - vs.length) Value.nothing).map some := by
    rw [Array.toList_appendList, List.map_append, List.map_append, hold, hnew]
  have hallSize : (items ++ newIds h₁ (i - items.size)).size = vs.length + (i - vs.length) := by
    rw [← Array.length_toList]
    simpa only [List.length_map, List.length_append, List.length_replicate] using
      congrArg List.length hall
  split
  · rename_i hi
    have hlt : i < vs.length := by omega
    rw [Array.toList_setIfInBounds, List.map_set, hall, hitem₂, ← List.map_set,
      Value.storeAt_lt hlt, Nat.sub_eq_zero_of_le (by omega)]
    simp
  · rename_i hi
    rw [Array.toList_push, List.map_append, hall, Value.storeAt_ge (by omega), List.map_append]
    simp [hitem₂]

theorem Lists.run_arrayPop (hl : h.Lists a vs) : ∃ last h',
    (arrayPop a).run h = (.ok last, h') ∧ h.Firm (Besides a) h' ∧
      last.map h.reads? = vs.getLast?.map some ∧
      ∀ {τ}, h'.Sound τ → h'.Lists a vs.dropLast := by
  obtain ⟨items, hitems, hmap⟩ := hl
  obtain ⟨h', hset, hitems', hf⟩ := run_setArray hitems items.pop
  refine ⟨items.back?, h', ?_, hf, ?_, ?_⟩
  · rw [arrayPop, run_bind_ok (by rw [run_query, hitems]), run_bind_ok hset]
    rfl
  · rw [← Array.getLast?_toList, ← List.getLast?_map, hmap, List.getLast?_map]
  · intro τ hs
    refine Lists.write hitems hitems' ?_ hf hs
    rw [Array.toList_pop, List.map_dropLast, hmap, List.map_dropLast]

theorem run_arrayClear (hitems : h.items a = .ok items) (hs : h.Sound σ) (ha : a ∈ σ) :
    ∃ h', (arrayClear a).run h = (.ok (), h') ∧ h'.Sound σ ∧ h.Firm (Besides a) h' ∧
      h'.items a = .ok #[] := by
  obtain ⟨_, h', hrun, -, hs'⟩ := gives_arrayClear hitems σ hs
  have hf := preserves_arrayClear h a h (firm_refl (fun _ _ _ => rfl) h)
  rw [hrun] at hf
  refine ⟨h', hrun, hs', hf, ?_⟩
  obtain ⟨h₁, hset, hitems₁, -⟩ := run_setArray hitems #[]
  rw [arrayClear, run_bind_ok (by rw [run_query, hitems]), run_bind_ok hset] at hrun
  have hshrinks := releaseAll_shrinks items.toList h₁
  rw [hrun] at hshrinks
  exact hshrinks.items_ok hitems₁ (hs'.isLive ha)

theorem Lists.run_arrayClear (hl : h.Lists a vs) (hs : h.Sound σ) (ha : a ∈ σ) :
    ∃ h', (arrayClear a).run h = (.ok (), h') ∧ h'.Sound σ ∧ h.Firm (Besides a) h' ∧
      h'.Lists a [] := by
  obtain ⟨items, hitems, -⟩ := hl
  obtain ⟨h', hrun, hs', hf, hitems'⟩ := Heap.run_arrayClear hitems hs ha
  exact ⟨h', hrun, hs', hf, #[], hitems', rfl⟩

end Heap

end Embedding
