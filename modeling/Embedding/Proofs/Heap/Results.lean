import Embedding.Proofs.Heap.LastErrors
import Mathlib.Data.List.Forall2
import Mathlib.Data.List.Nodup

/-!
# Results of bodies

When a body has returned, its values are copied before its temporaries are released. Nothing but a stake
holds a copy, and what a copy refers to has a count from it. So the copies outlast the temporaries, and those
that the context of the call does not want go away with their stakes.
-/

namespace Embedding

/-- The values that a call in this context hands on. -/
def Context.wanted : Context → List CellId → List CellId
  | .list, values => values
  | .scalar, values => values.getLast?.toList
  | .void, _ => []

theorem Context.wanted_sublist (context : Context) (values : List CellId) :
    (context.wanted values).Sublist values := by
  cases context with
  | list => exact .refl values
  | scalar =>
    have hsub := List.sublist_append_right values.dropLast values.getLast?.toList
    rwa [Heap.dropLast_append_getLast?] at hsub
  | void => exact List.nil_sublist values

theorem Context.forall₂_wanted {R : CellId → CellId → Prop} {ds cs : List CellId}
    (hall : List.Forall₂ R ds cs) (context : Context) :
    List.Forall₂ R (context.wanted ds) (context.wanted cs) := by
  cases context with
  | list => exact hall
  | scalar =>
    induction hall with
    | nil => exact .nil
    | cons hfirst hrest ih =>
      cases hrest with
      | nil => exact .cons hfirst .nil
      | cons _ _ =>
        simp only [wanted, List.getLast?_cons_cons] at ih ⊢
        exact ih
  | void => exact .nil

namespace Heap

/-- In `h` the cell `d` has the value that `c` had in `base`. -/
def Shows (h base : Heap) (d c : CellId) : Prop :=
  ∃ x n, base.cell? c = some x ∧ h.cell? d = some ⟨n, none, .scalar (contentValue c x.content)⟩

/-- The stakes `ds` are in cells that were made since `base`, and nothing else holds such a cell. -/
structure Copies (base h : Heap) (ds σ : List CellId) : Prop where
  sound : h.Sound (ds ++ σ)
  places : ∀ c ∈ h.places, c.index < base.cells.size
  rest : ∀ c ∈ σ, c.index < base.cells.size
  fresh : ∀ d ∈ ds, base.cells.size ≤ d.index
  nodup : ds.Nodup

variable {base h h' : Heap} {ds ds' σ τ values : List CellId} {c d : CellId} {x : Cell}

theorem Sound.copies (hs : h.Sound σ) : Copies h h [] σ where
  sound := hs
  places _ hc := lt_of_isLive (hs.exact.held _ (List.mem_append_left _ hc))
  rest _ hc := lt_of_isLive (hs.isLive hc)
  fresh := nofun
  nodup := .nil

/-! ## Copying -/

theorem Sound.run_takeValue (hs : h.Sound σ) (hc : h.cell? c = some x) :
    ∃ h', (takeValue c).run h = (.ok (contentValue c x.content), h') ∧ h.Grows h' ∧
      h'.Sound ((contentValue c x.content).ref.toList ++ σ) ∧ h'.cells.size = h.cells.size ∧
      h'.places.Perm h.places := by
  rw [takeValue_eq, run_bind_ok (by rw [run_query, cell_ok hc])]
  cases ht : (contentValue c x.content).ref with
  | none => exact ⟨h, rfl, .refl h, hs, rfl, .refl _⟩
  | some t =>
    have hlive : h.isLive t := by
      rcases contentValue_ref (Option.mem_toList.2 ht) with rfl | hm
      · exact isLive_of_cell? hc
      · exact hs.isLive_child hc hm
    obtain ⟨y, hy⟩ := exists_cell hlive
    refine ⟨_, run_bind_ok (run_retain hy), grows_recount hy _, hs.retain hy, by simp [setCell], ?_⟩
    exact (List.perm_append_right_iff y.content.children).1 (places_setCell hy _)

theorem Sound.run_copy_value (hs : h.Sound σ) (hc : h.cell? c = some x) :
    ∃ h', (copy c).run h = (.ok ⟨h.cells.size⟩, h') ∧ h.Grows h' ∧ h'.Sound (⟨h.cells.size⟩ :: σ) ∧
      h'.places.Perm (h.places ++ (contentValue c x.content).ref.toList) ∧
      h'.cell? ⟨h.cells.size⟩ = some ⟨1, none, .scalar (contentValue c x.content)⟩ := by
  obtain ⟨h₁, hrun, hgrows, hs₁, hsize, hplaces⟩ := hs.run_takeValue hc
  have hid : (h₁.allocate (.scalar (contentValue c x.content))).1 = ⟨h.cells.size⟩ := by
    rw [← hsize]
    rfl
  refine ⟨(h₁.allocate (.scalar (contentValue c x.content))).2, ?_, hgrows.trans (grows_allocate h₁ _), ?_,
    (places_allocate h₁ _).trans (hplaces.append_right _), ?_⟩
  · rw [copy, run_bind_ok hrun, ← hid]
    rfl
  · rw [← hid]
    exact Sound.allocate hs₁
  · rw [cell?_allocate, if_pos hid.symm]

theorem Copies.run_copy (hd : Copies base h ds σ) (hgrows : base.Grows h) (hc : base.isLive c) :
    ∃ d h', (copy c).run h = (.ok d, h') ∧ h.Grows h' ∧ Copies base h' (d :: ds) σ ∧ h'.Shows base d c := by
  obtain ⟨x, hx⟩ := exists_cell hc
  obtain ⟨n, hn⟩ := hgrows.cells c x hx
  obtain ⟨h', hrun, hgrows', hs, hplaces, hcopy⟩ := hd.sound.run_copy_value hn
  refine ⟨_, h', hrun, hgrows', ⟨hs, fun e he => ?_, hd.rest, fun e he => ?_, ?_⟩, x, 1, hx, hcopy⟩
  · rcases List.mem_append.1 (hplaces.mem_iff.1 he) with he | he
    · exact hd.places e he
    · -- what the copy refers to is the source, or was held before
      rcases contentValue_ref he with rfl | hm
      · exact lt_of_isLive hc
      · exact hd.places e (mem_places_iff.2 (.inl ⟨c, _, hn, hm⟩))
  · rcases List.mem_cons.1 he with rfl | he
    · exact hgrows.size
    · exact hd.fresh e he
  · refine List.nodup_cons.2 ⟨fun hm => ?_, hd.nodup⟩
    exact Nat.lt_irrefl _ (lt_of_isLive (hd.sound.isLive (List.mem_append_left σ hm)))

theorem Shows.grows (hshows : h.Shows base d c) (hgrows : h.Grows h') : h'.Shows base d c := by
  obtain ⟨x, n, hx, hd⟩ := hshows
  obtain ⟨m, hm⟩ := hgrows.cells d _ hd
  exact ⟨x, m, hx, hm⟩

theorem Shows.shrinks (hshows : h.Shows base d c) (hshrinks : h.Shrinks h') (hlive : h'.isLive d) :
    h'.Shows base d c := by
  obtain ⟨x, n, hx, hd⟩ := hshows
  obtain ⟨⟨m, package, content⟩, hy⟩ := exists_cell hlive
  obtain ⟨z, hz, hcontent, hpackage⟩ := hshrinks.cells d _ hy
  cases hz.symm.trans hd
  dsimp only at hcontent hpackage
  subst hcontent hpackage
  exact ⟨x, m, hx, hy⟩

theorem Copies.run_copyAll : ∀ (values : List CellId) {h : Heap} {ds : List CellId},
    Copies base h ds σ → base.Grows h → (∀ c ∈ values, base.isLive c) →
    ∃ copies h', (values.mapM copy).run h = (.ok copies, h') ∧ h.Grows h' ∧
      Copies base h' (copies ++ ds) σ ∧ List.Forall₂ (h'.Shows base) copies values
  | [], h, ds, hd, _, _ => ⟨[], h, rfl, .refl h, hd, .nil⟩
  | c :: values, h, ds, hd, hgrows, hlive => by
    obtain ⟨d, h₁, hrun, hgrows₁, hd₁, hshows⟩ := hd.run_copy hgrows (hlive c (.head _))
    obtain ⟨copies, h₂, hrun₂, hgrows₂, hd₂, hall⟩ :=
      Copies.run_copyAll values hd₁ (hgrows.trans hgrows₁) fun e he => hlive e (.tail _ he)
    refine ⟨d :: copies, h₂, ?_, hgrows₁.trans hgrows₂, ?_, .cons (hshows.grows hgrows₂) hall⟩
    · rw [List.mapM_cons, run_bind_ok hrun, run_bind_ok hrun₂]
      rfl
    · have hperm : (copies ++ d :: ds).Perm (d :: copies ++ ds) := List.perm_middle
      exact ⟨hd₂.sound.perm (hperm.append_right σ), hd₂.places, hd₂.rest,
        fun e he => hd₂.fresh e (hperm.mem_iff.2 he), hperm.nodup_iff.1 hd₂.nodup⟩

/-! ## Releasing -/

theorem Copies.shrinks (hd : Copies base h ds σ) (hshrinks : h.Shrinks h') (hs : h'.Sound (ds' ++ τ))
    (hds : ds'.Sublist ds) (hτ : τ ⊆ σ) : Copies base h' ds' τ where
  sound := hs
  places c hc := by
    refine hd.places c (mem_places_iff.2 ?_)
    rcases mem_places_iff.1 hc with ⟨e, y, hy, hm⟩ | hm
    · obtain ⟨z, hz, hcontent, -⟩ := hshrinks.cells e y hy
      exact .inl ⟨e, z, hz, hcontent ▸ hm⟩
    · exact .inr (hshrinks.symbols ▸ hm)
  rest c hc := hd.rest c (hτ hc)
  fresh d hm := hd.fresh d (hds.subset hm)
  nodup := hd.nodup.sublist hds

theorem Copies.run_narrow (hd : Copies base h ds σ) (context : Context) :
    ∃ h', (narrow context ds).run h = (.ok (context.wanted ds), h') ∧ h.Shrinks h' ∧
      Copies base h' (context.wanted ds) σ := by
  have hwanted {given : List CellId} (hs : h.Sound (given ++ (context.wanted ds ++ σ))) :
      ∃ h', (releaseAll given).run h = (.ok (), h') ∧ h.Shrinks h' ∧ Copies base h' (context.wanted ds) σ := by
    obtain ⟨h', hrun, hshrinks, hs'⟩ := hs.run_releaseAll
    exact ⟨h', hrun, hshrinks, hd.shrinks hshrinks hs' (context.wanted_sublist ds) (List.Subset.refl σ)⟩
  cases context with
  | list => exact ⟨h, rfl, .refl h, hd⟩
  | scalar =>
    have hs := hd.sound
    rw [← dropLast_append_getLast? ds, List.append_assoc] at hs
    obtain ⟨h', hrun, hrest⟩ := hwanted hs
    exact ⟨h', by rw [narrow, run_bind_ok hrun]; rfl, hrest⟩
  | void =>
    obtain ⟨h', hrun, hrest⟩ := hwanted hd.sound
    exact ⟨h', by rw [narrow, run_bind_ok hrun]; rfl, hrest⟩

theorem Copies.unheld (hd : Copies base h ds σ) (hm : d ∈ ds) : d ∉ h.places :=
  fun he => Nat.not_lt.2 (hd.fresh d hm) (hd.places d he)

theorem Copies.refcount (hd : Copies base h ds σ) (hm : d ∈ ds) (hx : h.cell? d = some x) :
    x.refcount = 1 := by
  have hrest : d ∉ σ := fun he => Nat.not_lt.2 (hd.fresh d hm) (hd.rest d he)
  rw [(hd.sound.exact.counts d x hx).1, List.count_append, List.count_append,
    List.count_eq_zero.2 (hd.unheld hm), List.count_eq_zero.2 hrest, List.count_eq_one_of_mem hd.nodup hm]

/-- No cell that was made since is left but those that there are stakes in. -/
theorem Copies.mem (hd : Copies base h ds σ) (hlive : h.isLive d) (hnew : base.cells.size ≤ d.index) :
    d ∈ ds := by
  have hplace : d ∉ h.places := fun he => Nat.not_lt.2 hnew (hd.places d he)
  have hrest : d ∉ σ := fun he => Nat.not_lt.2 hnew (hd.rest d he)
  rcases hd.sound.exact.holder hlive with hm | hm | hm
  · exact (List.mem_append.1 hm).resolve_right hrest
  · exact absurd (mem_places_iff.2 (.inr hm)) hplace
  · exact absurd (mem_places_iff.2 (.inl hm)) hplace

/-! ## The end of a body -/

/-- A body that returns live cells: the call succeeds, and there are stakes in copies of what it wants. -/
theorem Sound.run_invoke {call : Target CellId → List CellId → HeapM (List CellId)}
    {P : Target CellId → List CellId → Heap → Prop} {L : Target CellId → List CellId → Heap → List CellId}
    (hcall : ∀ target args h, Loses (call target args) h (P target args h) (L target args h) id)
    (hs : h.Sound σ) {body : Proc (List CellId)} {f : Frame}
    (hbody : (body.run call).run (startFrame h) = (.ok values, f))
    (hlive : ∀ c ∈ values, f.heap.isLive c) (context : Context) :
    ∃ results h', (invoke call body context).run h = (.ok results, h') ∧ h.Evolves f.heap ∧
      List.Forall₂ (h'.Shows f.heap) results (context.wanted values) ∧
      Copies f.heap h' results (body.lost call L (startFrame h) ++ σ) := by
  obtain ⟨_, h₁, hclear, hev₁, hs₁⟩ := gives_clearError h σ hs
  have hstart : startFrame h = { heap := h₁ } := by rw [startFrame, hclear]
  rw [hstart] at hbody ⊢
  have hloses := Proc.loses_run hcall body { heap := h₁ } σ hs₁
  unfold Ends at hloses
  rw [hbody] at hloses
  obtain ⟨hev₂, hs₂, -⟩ := hloses
  obtain ⟨copies, h₂, hcopy, -, hd₂, hall⟩ := hs₂.copies.run_copyAll values (.refl f.heap) hlive
  rw [List.append_nil] at hd₂
  -- the temporaries go, and the copies have counts of their own on what they refer to
  have hs₂ : h₂.Sound (f.temporaries.reverse ++ (copies ++ (body.lost call L { heap := h₁ } ++ σ))) :=
    hd₂.sound.perm (List.perm_iff_count.2 fun c => by
      simp only [List.count_append, List.count_reverse]
      omega)
  obtain ⟨h₃, hrelease, hshrinks₃, hs₃⟩ := hs₂.run_releaseAll
  have hd₃ := hd₂.shrinks hshrinks₃ hs₃ (.refl copies) (List.subset_append_right ..)
  obtain ⟨h₄, hnarrow, hshrinks₄, hd₄⟩ := hd₃.run_narrow context
  refine ⟨context.wanted copies, h₄, ?_, hev₁.trans hev₂, ?_, hd₄⟩
  · rw [invoke_eq, run_bind_ok hclear, run_get_bind, hbody]
    dsimp only
    rw [run_set_bind, run_bind_ok (run_attempt ..)]
    rw [copyOut, hcopy, run_bind_ok hrelease]
    exact hnarrow
  · have hshrinks := hshrinks₃.trans hshrinks₄
    have hstakes : ∀ d ∈ context.wanted copies, h₄.isLive d :=
      fun d hd => hd₄.sound.isLive (List.mem_append_left _ hd)
    refine ((List.forall₂_and_left _ _).2 ⟨hstakes, context.forall₂_wanted hall⟩).imp ?_
    rintro d c ⟨hlive, hshows⟩
    exact hshows.shrinks hshrinks hlive

end Heap

end Embedding
