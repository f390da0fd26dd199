import Embedding.Proofs.Heap.Maps
import Embedding.Proofs.Host.Lists

/-!
# Hashes of plain data, seen by the host

While no error is pending, the operations on a hash that shows a dictionary do not fail. They answer
as the dictionary does. A walk starts over, wherever the iteration of the hash is.
-/

namespace Embedding

open Heap
open HostM (holding)

variable {w : World} {s : SessionId} {setup : Setup} {g h h' : Heap} {a : CellId} {x : Scalar}
  {v : Value} {d : Dict Value} {σ τ : List CellId} {n i : Nat} {key : String}

theorem Heap.MapsAt.quiet (hm : h.MapsAt a d i) (hq : h.Quiet) (hs : h.Sound σ) (hs' : h'.Sound τ)
    (hf : h.Firm (Besides a) h') : h'.Quiet := by
  obtain ⟨entries, hhash, -⟩ := hm
  exact hq.besides hs hs' hhash hf

theorem Heap.Quiet.turning (hq : h.Quiet) (hf : h.Firm Turning h') (hs : h'.Sound σ) : h'.Quiet :=
  hf.quiet hq hs fun _ _ y _ => turning_scalar y

section
variable (hk : w.KeptOn s setup g)
include hk

/-! ## Looking -/

theorem run_hashLength_plain (hq : h.Quiet) (hm : h.MapsAt a d i) :
    (HashView.length ⟨⟨s, a⟩⟩).run (w.put s h n) = (.ok d.length, w.put s h n) := by
  obtain ⟨entries, hhash, -⟩ := id hm
  have hlength : h.hashLength a = .ok d.length := by
    rw [hashLength, entries_ok hhash, ← hm.length hhash]
    rfl
  exact run_ask_cell hk hq "hash length" (.hashLength ⟨s, a⟩) rfl (congrArg (·, h) hlength)

theorem run_hashContains_plain (hq : h.Quiet) (hm : h.MapsAt a d i) (key : String) :
    (HashView.contains ⟨⟨s, a⟩⟩ key).run (w.put s h n) = (.ok (d.contains key), w.put s h n) := by
  obtain ⟨entries, hhash, -⟩ := id hm
  have hcontains : h.hashContains a key = .ok (d.contains key) := by
    have hget := congrArg Option.isSome (hm.get? hhash key)
    rw [Option.isSome_map, Option.isSome_map] at hget
    rw [hashContains, entries_ok hhash, Dict.contains, ← hget]
    rfl
  exact run_ask_cell hk hq "hash exists" (.hashContains ⟨s, a⟩ key) rfl (congrArg (·, h) hcontains)

theorem run_hashGet_plain (hq : h.Quiet) (hs : h.Sound σ) (ha : a ∈ σ) (hm : h.MapsAt a d i)
    (key : String) :
    ∃ h', (HashView.get ⟨⟨s, a⟩⟩ key).run (w.put s h n) =
        (.ok ((d.get? key).getD .nothing), w.put s h' n) ∧
      h'.Sound σ ∧ h'.MapsAt a d i := by
  obtain ⟨found, h₁, hfetch, hg, hs₁, hfound⟩ := hm.run_hashFetch hs key
  have hq₁ := hq.grows hg
  have hcross := hk.run_cross (n := n) "hash get" (.hashFetch ⟨s, a⟩ key) hfetch hq₁
  rw [HashView.get, run_bind_ok hcross]
  cases found with
  | none =>
    have hnone : d.get? key = none := Option.map_eq_none_iff.mp hfound.symm
    rw [hnone]
    exact ⟨h₁, rfl, hs₁, hm.unchanged hg.firm hs₁ (hs₁.isLive ha)⟩
  | some c =>
    obtain ⟨v, hv, hread⟩ := Option.map_eq_some_iff.mp hfound.symm
    obtain ⟨h₂, htaken, hf₂, hs₂⟩ := run_plainTaken hk (n := n) hq₁ hs₁ (hg.reads? hread.symm)
    rw [hv]
    exact ⟨h₂, run_map_ok Value.ofOption htaken, hs₂,
      hm.unchanged (hg.firm.unchanged hf₂) hs₂ (hs₂.isLive ha)⟩

/-! ## Writing -/

theorem run_hashSet_plain (hq : h.Quiet) (hs : h.Sound σ) (ha : a ∈ σ) (hm : h.MapsAt a d i)
    (hv : v.scalar? = some x) (key : String) :
    ∃ h', (HashView.set ⟨⟨s, a⟩⟩ key v).run (w.put s h n) = (.ok (), w.put s h' n) ∧
      h'.Sound σ ∧ h'.MapsAt a (d.insert key v) i := by
  obtain ⟨item, h₁, hcell, hg, hs₁, hread⟩ := run_plainCell hk (n := n) hq hs hv
  have hm₁ := hm.unchanged hg.firm hs₁ (hs₁.isLive (.tail _ ha))
  obtain ⟨h₂, hstore, hs₂, hf₂, hm₂⟩ := hm₁.run_hashStore hs₁ (.tail _ ha) hread key
  have hcross := hk.run_cross (n := n + 1) "hash set" (.hashStore ⟨s, a⟩ key ⟨s, item⟩) hstore
    (hm₁.quiet (hq.grows hg) hs₁ hs₂ hf₂)
  obtain ⟨h₃, hrelease, hshrinks, hs₃⟩ := hs₂.run_release
  refine ⟨h₃, ?_, hs₃, hm₂.unchanged hshrinks.firm hs₃ (hs₃.isLive ha)⟩
  rw [HashView.set, run_bind_ok hcell]
  exact hk.run_holding hcross hrelease

theorem run_hashDelete_plain (hq : h.Quiet) (hs : h.Sound σ) (ha : a ∈ σ) (hm : h.MapsAt a d i)
    (key : String) :
    ∃ h', (HashView.delete ⟨⟨s, a⟩⟩ key).run (w.put s h n) = (.ok (d.get? key), w.put s h' n) ∧
      h'.Sound σ ∧ h'.MapsAt a (d.erase key) i := by
  obtain ⟨old, h₁, hdelete, hf₁, hold, hm₁⟩ := hm.run_hashDelete key
  obtain ⟨-, -, hs₁⟩ := (settles_hashDelete h a key σ hs).of_run hdelete
  have hq₁ := hm.quiet hq hs hs₁ hf₁
  have hcross := hk.run_cross (n := n) "hash delete" (.hashDelete ⟨s, a⟩ key) hdelete hq₁
  rw [HashView.delete, run_bind_ok hcross]
  cases old with
  | none =>
    have hnone : d.get? key = none := Option.map_eq_none_iff.mp hold.symm
    exact ⟨h₁, by rw [hnone]; rfl, hs₁, hm₁ hs₁⟩
  | some c =>
    obtain ⟨v, hv, hread⟩ := Option.map_eq_some_iff.mp hold.symm
    obtain ⟨entries, hhash, -⟩ := id hm
    have hread₁ : h₁.reads? c = some v := hf₁.reads? hread.symm
      (fun x y hy => hy (ne_hash_of_reads? hhash hread.symm)) (hs₁.isLive (.head _))
    obtain ⟨h₂, htaken, hf₂, hs₂⟩ := run_plainTaken hk (n := n) hq₁ hs₁ hread₁
    exact ⟨h₂, by rw [hv]; exact htaken, hs₂, (hm₁ hs₁).unchanged hf₂ hs₂ (hs₂.isLive ha)⟩

theorem run_hashClear_plain (hq : h.Quiet) (hs : h.Sound σ) (ha : a ∈ σ) (hm : h.MapsAt a d i) :
    ∃ h', (HashView.clear ⟨⟨s, a⟩⟩).run (w.put s h n) = (.ok (), w.put s h' n) ∧
      h'.Sound σ ∧ h'.MapsAt a [] 0 := by
  obtain ⟨h', hclear, hs', hf', hm'⟩ := hm.run_hashClear hs ha
  have hcross := hk.run_cross (n := n) "hash clear" (.hashClear ⟨s, a⟩) hclear
    (hm.quiet hq hs hs' hf')
  exact ⟨h', hcross, hs', hm'⟩

/-! ## Walks -/

theorem run_hashStep_plain (hq : h.Quiet) (hs : h.Sound σ) (ha : a ∈ σ) (hm : h.MapsAt a d i)
    (hi : d[i]? = some (key, v)) :
    ∃ h', (HashCursor.step ⟨⟨⟨s, a⟩⟩, .started⟩).run (w.put s h n) =
        (.ok (some (key, v)), w.put s h' n) ∧ v.handles = [] ∧
      h'.Quiet ∧ h'.Sound σ ∧ h'.MapsAt a d (i + 1) := by
  obtain ⟨value, h₁, hnext, hf₁, hs₁, hm₁, hread⟩ := hm.run_hashNext hs hi
  have hq₁ := hq.turning hf₁ hs₁
  have hcross := hk.run_cross (n := n) "hash iterate" (.hashNext ⟨s, a⟩) hnext hq₁
  obtain ⟨h₂, hheld, hf₂, hs₂⟩ := run_plainHeld hk (n := n) hq₁ hs₁ hread
  obtain ⟨y, -, hplain⟩ := reads?_eq_some_iff.mp hread
  refine ⟨h₂, ?_, Scalar.plain?_handles hplain, hf₂.quiet hq₁ hs₂ fun _ _ _ _ => id, hs₂,
    hm₁.unchanged hf₂ hs₂ (hs₂.isLive ha)⟩
  rw [HashCursor.step]
  refine (run_bind_ok hcross).trans ?_
  exact (run_bind_ok hheld).trans rfl

theorem run_hashStep_plain_end (hq : h.Quiet) (hm : h.MapsAt a d i) (hi : d[i]? = none) :
    (HashCursor.step ⟨⟨⟨s, a⟩⟩, .started⟩).run (w.put s h n) = (.ok none, w.put s h n) := by
  have hcross := run_ask_cell hk (n := n) hq "hash iterate" (.hashNext ⟨s, a⟩) rfl
    (hm.run_hashNext_end hi)
  rw [HashCursor.step]
  exact (run_bind_ok hcross).trans rfl

theorem run_hashRewind_plain (hq : h.Quiet) (hs : h.Sound σ) (hm : h.MapsAt a d i) :
    ∃ h', h'.Quiet ∧ h'.Sound σ ∧ h'.MapsAt a d 0 ∧
      (HashCursor.step ⟨⟨⟨s, a⟩⟩, .fresh⟩).run (w.put s h n) =
        (HashCursor.step ⟨⟨⟨s, a⟩⟩, .started⟩).run (w.put s h' n) := by
  obtain ⟨h', hrewind, hf, hs', hm'⟩ := hm.run_hashRewind hs
  have hq' := hq.turning hf hs'
  have hcross := hk.run_cross (n := n) "hash iterate" (.hashRewind ⟨s, a⟩) hrewind hq'
  refine ⟨h', hq', hs', hm', ?_⟩
  rw [HashCursor.step, HashCursor.step]
  exact run_bind_ok hcross

theorem run_toEntries_plain {fuel : Nat} (hq : h.Quiet) (hs : h.Sound σ) (ha : a ∈ σ)
    (hm : h.MapsAt a d i) (hfuel : d.length - i < fuel) :
    ∃ h', (HashCursor.toEntries fuel ⟨⟨⟨s, a⟩⟩, .started⟩).run (w.put s h n) =
        (.ok (d.drop i), w.put s h' n) ∧ h'.Sound σ ∧ h'.Maps a d := by
  induction fuel generalizing h i with
  | zero => omega
  | succ fuel ih =>
    rw [HashCursor.toEntries]
    by_cases hi : i < d.length
    · obtain ⟨h₁, hstep, -, hq₁, hs₁, hm₁⟩ :=
        run_hashStep_plain hk (n := n) (v := d[i].2) hq hs ha hm (List.getElem?_eq_getElem hi)
      obtain ⟨h₂, hrest, hs₂, hm₂⟩ := ih hq₁ hs₁ hm₁ (by omega)
      refine ⟨h₂, ?_, hs₂, hm₂⟩
      rw [run_bind_ok (run_hashNext_entry hstep (by simp)), List.drop_eq_getElem_cons hi]
      exact (run_bind_ok (run_orRelease_ok hrest)).trans rfl
    · have hend := run_hashStep_plain_end hk (n := n) hq hm (List.getElem?_eq_none (by omega))
      refine ⟨h, ?_, hs, hm.maps⟩
      rw [run_bind_ok (run_hashNext_end hend (by simp)), List.drop_eq_nil_of_le (Nat.le_of_not_lt hi)]
      rfl

theorem run_toKeys_plain {fuel : Nat} (hq : h.Quiet) (hs : h.Sound σ) (ha : a ∈ σ)
    (hm : h.MapsAt a d i) (hfuel : d.length - i < fuel) :
    ∃ h', (HashCursor.toKeys fuel ⟨⟨⟨s, a⟩⟩, .started⟩).run (w.put s h n) =
        (.ok (Dict.keys (d.drop i)), w.put s h' n) ∧ h'.Sound σ ∧ h'.Maps a d := by
  induction fuel generalizing h i with
  | zero => omega
  | succ fuel ih =>
    rw [HashCursor.toKeys]
    by_cases hi : i < d.length
    · obtain ⟨h₁, hstep, hhandles, hq₁, hs₁, hm₁⟩ :=
        run_hashStep_plain hk (n := n) (v := d[i].2) hq hs ha hm (List.getElem?_eq_getElem hi)
      obtain ⟨h₂, hrest, hs₂, hm₂⟩ := ih hq₁ hs₁ hm₁ (by omega)
      refine ⟨h₂, ?_, hs₂, hm₂⟩
      rw [run_bind_ok (run_hashNext_entry hstep (by simp)), List.drop_eq_getElem_cons hi]
      dsimp only
      rw [hhandles]
      exact (run_bind_ok hrest).trans rfl
    · have hend := run_hashStep_plain_end hk (n := n) hq hm (List.getElem?_eq_none (by omega))
      refine ⟨h, ?_, hs, hm.maps⟩
      rw [run_bind_ok (run_hashNext_end hend (by simp)), List.drop_eq_nil_of_le (Nat.le_of_not_lt hi)]
      rfl

theorem itemBound_plain (hm : h.MapsAt a d i) :
    (HostM.itemBound ⟨s, a⟩).run (w.put s h n) = (.ok (d.length + 1), w.put s h n) := by
  obtain ⟨entries, hhash, -⟩ := id hm
  rw [← hm.length hhash]
  exact (hk.put h n).run_itemBound_hash hhash

theorem run_hashWalk_plain {α : Type} (walk : Nat → HashCursor → HostM α) {r : α}
    (hfresh : ∀ {w w' : World}, (HashCursor.step ⟨⟨⟨s, a⟩⟩, .fresh⟩).run w =
        (HashCursor.step ⟨⟨⟨s, a⟩⟩, .started⟩).run w' →
      (walk (d.length + 1) ⟨⟨⟨s, a⟩⟩, .fresh⟩).run w =
        (walk (d.length + 1) ⟨⟨⟨s, a⟩⟩, .started⟩).run w')
    (hwalk : ∀ {h : Heap}, h.Quiet → h.Sound (a :: σ) → h.MapsAt a d 0 →
      ∃ h', (walk (d.length + 1) ⟨⟨⟨s, a⟩⟩, .started⟩).run (w.put s h (n + 1)) =
        (.ok r, w.put s h' (n + 1)) ∧ h'.Sound (a :: σ) ∧ h'.Maps a d)
    (hq : h.Quiet) (hs : h.Sound σ) (ha : a ∈ σ) (hm : h.MapsAt a d i) :
    ∃ h', (do
        let bound ← HostM.itemBound ⟨s, a⟩
        let c ← HashView.cursor ⟨⟨s, a⟩⟩
        holding [c.hash.cell] (walk bound c)).run (w.put s h n) = (.ok r, w.put s h' n) ∧
      h'.Sound σ ∧ h'.Maps a d := by
  obtain ⟨_, h₁, hretain, -, hs₁⟩ := gives_retain (hs.isLive ha) σ hs
  have hg := retain_grows h a
  rw [hretain] at hg
  have hcursor : (HashView.cursor ⟨⟨s, a⟩⟩).run (w.put s h n) =
      (.ok ⟨⟨⟨s, a⟩⟩, .fresh⟩, w.put s h₁ (n + 1)) := by
    rw [← hk.clone hretain]
    rfl
  have hm₁ := hm.unchanged hg.firm hs₁ (hs₁.isLive (.head _))
  obtain ⟨h₂, hq₂, hs₂, hm₂, hrewind⟩ := run_hashRewind_plain hk (n := n + 1) (hq.grows hg) hs₁ hm₁
  obtain ⟨h₃, hrun, hs₃, hm₃⟩ := hwalk hq₂ hs₂ hm₂
  obtain ⟨h₄, hrelease, hshrinks, hs₄⟩ := hs₃.run_release
  obtain ⟨j, hm₃⟩ := hm₃
  refine ⟨h₄, ?_, hs₄, (hm₃.unchanged hshrinks.firm hs₄ (hs₄.isLive ha)).maps⟩
  rw [run_bind_ok (itemBound_plain hk hm), run_bind_ok hcursor]
  exact hk.run_holding ((hfresh hrewind).trans hrun) hrelease

theorem run_hashKeys_plain (hq : h.Quiet) (hs : h.Sound σ) (ha : a ∈ σ) (hm : h.MapsAt a d i) :
    ∃ h', (HashView.keys ⟨⟨s, a⟩⟩).run (w.put s h n) = (.ok d.keys, w.put s h' n) ∧
      h'.Sound σ ∧ h'.Maps a d := by
  refine run_hashWalk_plain hk HashCursor.toKeys run_toKeys_fresh (fun hq hs hm => ?_) hq hs ha hm
  exact run_toKeys_plain hk hq hs (.head _) hm (Nat.lt_succ_self _)

theorem run_hashToDict_plain (hq : h.Quiet) (hs : h.Sound σ) (ha : a ∈ σ) (hm : h.MapsAt a d i)
    (hnodup : d.keys.Nodup) :
    ∃ h', (HashView.toDict ⟨⟨s, a⟩⟩).run (w.put s h n) = (.ok d, w.put s h' n) ∧
      h'.Sound σ ∧ h'.Maps a d := by
  refine run_hashWalk_plain hk (fun bound c => do HashView.collect (← c.toEntries bound) [])
    (fun hstep => ?_) (fun hq hs hm => ?_) hq hs ha hm
  · rw [run_bind, run_bind, run_toEntries_fresh hstep]
  · obtain ⟨h', hrun, hs', hm'⟩ :=
      run_toEntries_plain hk (n := n + 1) hq hs (.head _) hm (Nat.lt_succ_self _)
    exact ⟨h', (run_bind_ok hrun).trans (run_collect [] hnodup), hs', hm'⟩

end

end Embedding
