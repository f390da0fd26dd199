import Embedding.Host.Container
import Embedding.Proofs.Heap.Lists
import Embedding.Proofs.Host.Seeing

/-!
# Arrays of plain data, seen by the host

While no error is pending, the operations on an array that shows a list do not fail. They answer as
the list does, and the array goes on to show what the list becomes.
-/

namespace Embedding

open Heap
open HostM (holding)

variable {w : World} {s : SessionId} {setup : Setup} {g h : Heap} {a c : CellId} {x : Scalar}
  {v : Value} {vs : List Value} {σ : List CellId} {n i : Nat}

theorem Heap.Lists.quiet {h' : Heap} {τ : List CellId} (hl : h.Lists a vs) (hq : h.Quiet) (hs : h.Sound σ)
    (hs' : h'.Sound τ) (hf : h.Firm (Besides a) h') : h'.Quiet := by
  obtain ⟨items, hitems, -⟩ := hl
  obtain ⟨y, hy, hcontent⟩ := items_eq_ok_iff.mp hitems
  exact hq.writes hs hs' hy (by rw [hcontent]; nofun) hf

section
variable (hk : w.KeptOn s setup g)
include hk

/-! ## Reading -/

theorem run_plainLength (hq : h.Quiet) (hl : h.Lists a vs) :
    (ArrayView.length ⟨⟨s, a⟩⟩).run (w.put s h n) = (.ok vs.length, w.put s h n) := by
  obtain ⟨items, hitems, -⟩ := id hl
  rw [← hl.length hitems]
  exact run_ask_cell hk hq "array length" (.arrayLength ⟨s, a⟩) rfl
    (congrArg (·, h) (arrayLength_ok hitems))

theorem run_plainHeld (hq : h.Quiet) (hs : h.Sound (c :: σ)) (hv : h.reads? c = some v) :
    ∃ h', (holding [⟨s, c⟩] (Handle.value ⟨s, c⟩)).run (w.put s h (n + 1)) = (.ok v, w.put s h' n) ∧
      h.Firm Unchanged h' ∧ h'.Sound σ := by
  obtain ⟨h', hrelease, hshrinks, hs'⟩ := hs.run_release
  exact ⟨h', hk.run_holding (run_value_plain hk hq hv) hrelease, hshrinks.firm, hs'⟩

theorem run_plainTaken (hq : h.Quiet) (hs : h.Sound (c :: σ)) (hv : h.reads? c = some v) :
    ∃ h', (takeValue? (some ⟨s, c⟩)).run (w.put s h (n + 1)) = (.ok (some v), w.put s h' n) ∧
      h.Firm Unchanged h' ∧ h'.Sound σ := by
  obtain ⟨h', hrun, hf, hs'⟩ := run_plainHeld hk (n := n) hq hs hv
  exact ⟨h', run_map_ok some hrun, hf, hs'⟩

theorem run_plainGet (hq : h.Quiet) (hs : h.Sound σ) (hl : h.Lists a vs) (i : Nat) :
    ∃ h', (ArrayView.get ⟨⟨s, a⟩⟩ i).run (w.put s h n) =
        (.ok (vs[i]?.getD .nothing), w.put s h' n) ∧ h.Firm Unchanged h' ∧ h'.Sound σ := by
  obtain ⟨items, hitems, -⟩ := id hl
  have hget := hl.getElem? hitems i
  cases hi : items[i]? with
  | none =>
    rw [hi] at hget
    have hnone : vs[i]? = none := Option.map_eq_none_iff.mp hget.symm
    have hfetch : (arrayFetch a i).run h = (.ok none, h) := by
      rw [arrayFetch, run_bind_ok (by rw [run_query, hitems]), hi]
      rfl
    have hcross := hk.run_cross (n := n) "array get" (.arrayFetch ⟨s, a⟩ i) hfetch hq
    refine ⟨h, ?_, (Grows.refl h).firm, hs⟩
    rw [ArrayView.get, run_bind_ok hcross, hnone]
    rfl
  | some c =>
    rw [hi] at hget
    obtain ⟨v, hvs, hv⟩ := Option.map_eq_some_iff.mp hget.symm
    have hlive : h.isLive c := hs.isLive_item hitems (Array.mem_toList_iff.mpr (Array.mem_of_getElem? hi))
    obtain ⟨_, h₁, hretain, -, hs₁⟩ := gives_retain hlive σ hs
    have hg := retain_grows h c
    rw [hretain] at hg
    have hfetch : (arrayFetch a i).run h = (.ok (some c), h₁) := by
      rw [arrayFetch, run_bind_ok (by rw [run_query, hitems]), hi]
      exact (run_bind_ok hretain).trans rfl
    have hcross := hk.run_cross (n := n) "array get" (.arrayFetch ⟨s, a⟩ i) hfetch (hq.grows hg)
    obtain ⟨h₂, htaken, hf₂, hs₂⟩ := run_plainTaken hk (n := n) (hq.grows hg) hs₁ (hg.reads? hv.symm)
    refine ⟨h₂, ?_, hg.firm.unchanged hf₂, hs₂⟩
    rw [ArrayView.get, run_bind_ok hcross, hvs]
    exact run_map_ok Value.ofOption htaken

theorem run_plainWalk {fuel : Nat} (hq : h.Quiet) (hs : h.Sound σ) (ha : a ∈ σ) (hl : h.Lists a vs)
    (hfuel : vs.length - i < fuel) :
    ∃ h', (ArrayCursor.toList fuel ⟨⟨⟨s, a⟩⟩, some i⟩).run (w.put s h n) =
        (.ok (vs.drop i), w.put s h' n) ∧ h.Firm Unchanged h' ∧ h'.Sound σ := by
  induction fuel generalizing h i with
  | zero => omega
  | succ fuel ih =>
    have hlength := HostM.run_attempt_eq (run_plainLength hk (n := n) hq hl)
    rw [ArrayCursor.toList]
    by_cases hi : i < vs.length
    · obtain ⟨h₁, hget, hf₁, hs₁⟩ := run_plainGet hk (n := n) hq hs hl i
      have hnext : (ArrayCursor.next ⟨⟨⟨s, a⟩⟩, some i⟩).run (w.put s h n) =
          (.ok (some (.ok (vs[i]?.getD .nothing)), ⟨⟨⟨s, a⟩⟩, some (i + 1)⟩), w.put s h₁ n) := by
        rw [ArrayCursor.next, run_bind_ok hlength]
        dsimp only
        rw [if_pos hi, run_bind_ok (HostM.run_attempt_eq hget)]
        rfl
      have hq₁ := hf₁.quiet hq hs₁ fun _ _ _ _ hy => hy
      have hl₁ := hl.unchanged hf₁ hs₁ (hs₁.isLive ha)
      obtain ⟨h₂, hrest, hf₂, hs₂⟩ := ih (i := i + 1) hq₁ hs₁ hl₁ (by omega)
      refine ⟨h₂, ?_, hf₁.unchanged hf₂, hs₂⟩
      rw [run_bind_ok hnext]
      dsimp only
      rw [run_bind_ok (run_orRelease_ok hrest), List.drop_eq_getElem_cons hi, List.getElem?_eq_getElem hi]
      rfl
    · have hnext : (ArrayCursor.next ⟨⟨⟨s, a⟩⟩, some i⟩).run (w.put s h n) =
          (.ok (none, ⟨⟨⟨s, a⟩⟩, some i⟩), w.put s h n) := by
        rw [ArrayCursor.next, run_bind_ok hlength]
        dsimp only
        rw [if_neg hi]
        rfl
      refine ⟨h, ?_, (Grows.refl h).firm, hs⟩
      rw [run_bind_ok hnext, List.drop_eq_nil_of_le (Nat.le_of_not_lt hi)]
      rfl

theorem run_plainToList (hq : h.Quiet) (hs : h.Sound σ) (ha : a ∈ σ) (hl : h.Lists a vs) :
    ∃ h', (ArrayView.toList ⟨⟨s, a⟩⟩).run (w.put s h n) = (.ok vs, w.put s h' n) ∧
      h.Firm Unchanged h' ∧ h'.Sound σ := by
  obtain ⟨items, hitems, -⟩ := id hl
  -- the cursor has a count of its own
  obtain ⟨_, h₁, hretain, -, hs₁⟩ := gives_retain (hs.isLive ha) σ hs
  have hg := retain_grows h a
  rw [hretain] at hg
  have hclone : (ArrayView.cursor ⟨⟨s, a⟩⟩).run (w.put s h n) =
      (.ok ⟨⟨⟨s, a⟩⟩, some 0⟩, w.put s h₁ (n + 1)) := by
    rw [← hk.clone hretain]
    rfl
  have hl₁ := hl.unchanged hg.firm hs₁ (hs₁.isLive (.head _))
  have hfuel : vs.length - 0 < items.size + 1 := by
    rw [hl.length hitems]
    omega
  obtain ⟨h₂, hwalk, hf₂, hs₂⟩ := run_plainWalk hk (n := n + 1) (hq.grows hg) hs₁ (.head _) hl₁ hfuel
  obtain ⟨h₃, hrelease, hshrinks, hs₃⟩ := hs₂.run_release
  refine ⟨h₃, ?_, (hg.firm.unchanged hf₂).unchanged hshrinks.firm, hs₃⟩
  rw [ArrayView.toList, run_bind_ok ((hk.put h n).run_itemBound_array hitems), run_bind_ok hclone]
  exact hk.run_holding hwalk hrelease

/-! ## Writing -/

theorem run_plainCell (hq : h.Quiet) (hs : h.Sound σ) (hv : v.scalar? = some x) :
    ∃ item h', (holding v.handles (newCell s v)).run (w.put s h n) =
        (.ok ⟨s, item⟩, w.put s h' (n + 1)) ∧
      h.Grows h' ∧ h'.Sound (item :: σ) ∧ h'.reads? item = some v := by
  have hplain := Value.plain?_scalar hv
  have hg : h.Grows (h.allocate (.scalar x)).2 := grows_allocate h _
  have hleaf {request : Request Handle .cell}
      (hanswer : Heap.answer setup (request.map Handle.cell) = Heap.newScalar x) :
      (cross s crossing request).run (w.put s h n) =
        (.ok ⟨s, (h.allocate (.scalar x)).1⟩, w.put s (h.allocate (.scalar x)).2 (n + 1)) :=
    hk.run_cross crossing request (by rw [hanswer]; rfl) (hq.grows hg)
  have hcell : (newCell s v).run (w.put s h n) =
      (.ok ⟨s, (h.allocate (.scalar x)).1⟩, w.put s (h.allocate (.scalar x)).2 (n + 1)) := by
    cases v with
    | nothing | bool _ | int _ | float _ | text _ | bytes _ => cases hv; exact hleaf rfl
    | _ => cases hv
  refine ⟨(h.allocate (.scalar x)).1, _, ?_, hg, ?_, ?_⟩
  · rw [Scalar.plain?_handles hplain]
    exact run_holding_ok hcell
  · exact Sound.allocate (by rwa [Content.children, Value.scalar?_ref hv])
  · rw [← hplain]
    refine reads?_of_scalar (scalar_eq_ok_iff.mpr ⟨⟨1, none, .scalar x⟩, ?_, rfl⟩)
    rw [cell?_allocate, if_pos rfl]

theorem run_plainSet (hq : h.Quiet) (hs : h.Sound σ) (ha : a ∈ σ) (hl : h.Lists a vs)
    (hv : v.scalar? = some x) (i : Nat) :
    ∃ h', (ArrayView.set ⟨⟨s, a⟩⟩ i v).run (w.put s h n) = (.ok (), w.put s h' n) ∧
      h'.Sound σ ∧ h'.Lists a (Value.storeAt vs i v) := by
  obtain ⟨item, h₁, hcell, hg, hs₁, hread⟩ := run_plainCell hk (n := n) hq hs hv
  have hl₁ := hl.unchanged hg.firm hs₁ (hs₁.isLive (.tail _ ha))
  obtain ⟨h₂, hstore, hs₂, hf₂, hl₂⟩ := hl₁.run_arrayStore hs₁ (.tail _ ha) hread i
  have hcross := hk.run_cross (n := n + 1) "array set" (.arrayStore ⟨s, a⟩ i ⟨s, item⟩) hstore
    (hl₁.quiet (hq.grows hg) hs₁ hs₂ hf₂)
  obtain ⟨h₃, hrelease, hshrinks, hs₃⟩ := hs₂.run_release
  refine ⟨h₃, ?_, hs₃, hl₂.unchanged hshrinks.firm hs₃ (hs₃.isLive ha)⟩
  rw [ArrayView.set, run_bind_ok hcell]
  exact hk.run_holding hcross hrelease

theorem run_plainPush (hq : h.Quiet) (hs : h.Sound σ) (ha : a ∈ σ) (hl : h.Lists a vs)
    (hv : v.scalar? = some x) :
    ∃ h', (ArrayView.push ⟨⟨s, a⟩⟩ v).run (w.put s h n) = (.ok (), w.put s h' n) ∧
      h'.Sound σ ∧ h'.Lists a (vs ++ [v]) := by
  obtain ⟨h', hset, hs', hl'⟩ := run_plainSet hk (n := n) hq hs ha hl hv vs.length
  rw [Value.storeAt_ge (Nat.le_refl _), Nat.sub_self, List.replicate_zero, List.append_nil] at hl'
  refine ⟨h', ?_, hs', hl'⟩
  rw [ArrayView.push, run_bind_ok (run_orRelease_ok (run_plainLength hk hq hl))]
  exact hset

theorem run_plainPop (hq : h.Quiet) (hs : h.Sound σ) (ha : a ∈ σ) (hl : h.Lists a vs) :
    ∃ h', (ArrayView.pop ⟨⟨s, a⟩⟩).run (w.put s h n) = (.ok vs.getLast?, w.put s h' n) ∧
      h'.Sound σ ∧ h'.Lists a vs.dropLast := by
  obtain ⟨last, h₁, hpop, hf₁, hlast, hl₁⟩ := hl.run_arrayPop
  obtain ⟨-, -, hs₁⟩ := (settles_arrayPop h a σ hs).of_run hpop
  have hq₁ := hl.quiet hq hs hs₁ hf₁
  have hcross := hk.run_cross (n := n) "array pop" (.arrayPop ⟨s, a⟩) hpop hq₁
  rw [ArrayView.pop, run_bind_ok hcross]
  cases last with
  | none =>
    have hnone : vs.getLast? = none := Option.map_eq_none_iff.mp hlast.symm
    exact ⟨h₁, by rw [hnone]; rfl, hs₁, hl₁ hs₁⟩
  | some c =>
    obtain ⟨v, hvs, hv⟩ := Option.map_eq_some_iff.mp hlast.symm
    obtain ⟨items, hitems, -⟩ := id hl
    have hread : h₁.reads? c = some v := hf₁.reads? hv.symm
      (fun x y hy => hy (ne_of_reads? hitems hv.symm)) (hs₁.isLive (.head _))
    obtain ⟨h₂, htaken, hf₂, hs₂⟩ := run_plainTaken hk (n := n) hq₁ hs₁ hread
    exact ⟨h₂, by rw [hvs]; exact htaken, hs₂, (hl₁ hs₁).unchanged hf₂ hs₂ (hs₂.isLive ha)⟩

theorem run_plainClear (hq : h.Quiet) (hs : h.Sound σ) (ha : a ∈ σ) (hl : h.Lists a vs) :
    ∃ h', (ArrayView.clear ⟨⟨s, a⟩⟩).run (w.put s h n) = (.ok (), w.put s h' n) ∧
      h'.Sound σ ∧ h'.Lists a [] := by
  obtain ⟨h', hclear, hs', hf', hl'⟩ := hl.run_arrayClear hs ha
  have hcross := hk.run_cross (n := n) "array clear" (.arrayClear ⟨s, a⟩) hclear
    (hl.quiet hq hs hs' hf')
  exact ⟨h', hcross, hs', hl'⟩

end

end Embedding
