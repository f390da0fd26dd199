import Embedding.Proofs.Heap.Symbols

/-!
# Stakes of the pending error

The variable of the pending error is there and holds a scalar, so that it can always be assigned to
and cleared.
-/

namespace Embedding.Heap

variable {α : Type} {h h' : Heap} {σ : List CellId} {c value : CellId} {s : Embedding.Scalar}

theorem Sound.errorCell (hs : h.Sound σ) : ∃ c s, h.errorCell = .ok c ∧ h.scalar c = .ok s := by
  obtain ⟨c, hc⟩ := hs.named.error
  obtain ⟨x, hx, hslot⟩ := hs.named.sorts _ _ _ hc
  cases hcontent : x.content with
  | scalar s =>
    exact ⟨c, s, by rw [Heap.errorCell, hc], scalar_eq_ok_iff.2 ⟨x, hx, hcontent⟩⟩
  | _ => rw [hcontent] at hslot; cases hslot

theorem errorCell_eq_ok_iff : h.errorCell = .ok c ↔ h.symbol? .scalar errorName = some c := by
  unfold errorCell
  cases h.symbol? .scalar errorName <;> simp

theorem deathless_errorCell (h : Heap) : Deathless h.errorCell := by
  unfold errorCell
  cases h.symbol? .scalar errorName <;> first | exact deathless_ok _ | exact deathless_error rfl

theorem gives_setError (hv : h.isLive value) : Gives (setError value) h [] fun _ => [] := by
  intro σ hs
  obtain ⟨c, s, hc, hscalar⟩ := hs.errorCell
  unfold setError
  exact gives_query (k := fun d => assign d value) hc (gives_assign hscalar hv) σ hs

theorem settles_setError (h : Heap) (value : CellId) : Settles (setError value) h fun _ => [] :=
  settles_query (deathless_errorCell h) fun c _ => settles_assign h c value

theorem run_attempt (x : HeapM α) (h : Heap) :
    x.attempt.run h = (.ok (x.run h).1, (x.run h).2) := rfl

theorem gives_clearError (h : Heap) : Gives clearError h [] fun _ => [] := by
  refine (gives_newScalar (.ofBytes [] false) h).bind fun empty h₁ _ => ?_
  intro σ hs
  obtain ⟨_, h₂, hrun, hev, hs₂⟩ := gives_setError (hs.isLive (List.mem_cons_self ..)) _ hs
  obtain ⟨_, h₃, hrun', hev', hs₃⟩ := gives_release h₂ empty σ hs₂
  refine ⟨(), h₃, ?_, hev.trans hev', hs₃⟩
  rw [run_bind_ok (run_attempt ..), hrun, run_bind_ok hrun']
  rfl

theorem gives_takeError (h : Heap) : Gives takeError h [] Option.toList := by
  intro σ hs
  obtain ⟨c, s, hc, hscalar⟩ := hs.errorCell
  have htrue : h.isTrue c = .ok s.isTrue := by rw [isTrue, hscalar]; rfl
  refine gives_query hc (gives_query htrue ?_) σ hs
  split
  · obtain ⟨x, hx, -⟩ := scalar_eq_ok_iff.1 hscalar
    refine (gives_copy (isLive_of_cell? hx)).bind fun d h' _ => ?_
    exact ((gives_clearError h').frame [d]).bind fun _ h'' _ => gives_pure (some d) h'' Option.toList
  · exact gives_pure none h Option.toList

theorem tracks_die (h : Heap) (message : String) (tidy : Prop) (given : α → List CellId) :
    Tracks (die message) h tidy given := by
  intro σ hs
  obtain ⟨d, h₁, hrun, hev, hs₁⟩ := gives_newScalar (.ofText message) h σ hs
  obtain ⟨_, h₂, hrun', hev', hs₂⟩ := gives_setError (hs₁.isLive (List.mem_cons_self ..)) _ hs₁
  have hdie : (die message : HeapM α).run h = (.error (.died d), h₂) := by
    rw [die, run_bind_ok hrun, run_bind_ok hrun']
    rfl
  exact ends_of_run hdie ⟨hev.trans hev', [], hs₂, fun _ => rfl⟩

end Embedding.Heap
