import Embedding.Proofs.Heap.Firm
import Embedding.Proofs.Heap.Requests

/-!
# Quiet heaps

A heap is quiet while no error is pending. A look at the pending error leaves a quiet heap behind,
and what leaves the variable for it alone keeps a heap quiet.
-/

namespace Embedding.Heap

variable {h h' : Heap} {σ : List CellId} {c d dst src : CellId} {s t : Embedding.Scalar}

/-- An error is pending: the variable for it is true. -/
def Pending (h : Heap) : Prop := ∃ c, h.errorCell = .ok c ∧ h.isTrue c = .ok true

def Quiet (h : Heap) : Prop := ∃ c, h.errorCell = .ok c ∧ h.isTrue c = .ok false

theorem isTrue_ok (hc : h.scalar c = .ok s) : h.isTrue c = .ok s.isTrue := by
  rw [isTrue, hc]
  rfl

theorem Quiet.not_pending (hq : h.Quiet) : ¬ h.Pending := by
  obtain ⟨c, hc, hfalse⟩ := hq
  rintro ⟨d, hd, htrue⟩
  obtain rfl : c = d := Except.ok.inj (hc.symm.trans hd)
  exact absurd (hfalse.symm.trans htrue) nofun

theorem Sound.quiet_or_pending (hs : h.Sound σ) : h.Quiet ∨ h.Pending := by
  obtain ⟨c, s, hc, hscalar⟩ := hs.errorCell
  cases hb : s.isTrue with
  | false => exact .inl ⟨c, hc, hb ▸ isTrue_ok hscalar⟩
  | true => exact .inr ⟨c, hc, hb ▸ isTrue_ok hscalar⟩

theorem Sound.quiet_iff (hs : h.Sound σ) : h.Quiet ↔ ¬ h.Pending :=
  ⟨Quiet.not_pending, hs.quiet_or_pending.resolve_right⟩

theorem errorCell_congr (hsym : h'.symbols = h.symbols) : h'.errorCell = h.errorCell := by
  rw [errorCell, errorCell, symbol?, symbol?, hsym]

theorem Sound.isLive_errorCell (hs : h.Sound σ) (hc : h.errorCell = .ok c) : h.isLive c := by
  obtain ⟨d, s, hd, hscalar⟩ := hs.errorCell
  obtain rfl : c = d := Except.ok.inj (hc.symm.trans hd)
  obtain ⟨x, hx, -⟩ := scalar_eq_ok_iff.1 hscalar
  exact isLive_of_cell? hx

/-! ## What keeps a heap quiet -/

theorem Quiet.of_scalars (hq : h.Quiet) (hsym : h'.symbols = h.symbols)
    (hscalars : ∀ c s, h.scalar c = .ok s → h'.scalar c = .ok s) : h'.Quiet := by
  obtain ⟨c, hc, hfalse⟩ := hq
  refine ⟨c, (errorCell_congr hsym).trans hc, ?_⟩
  unfold isTrue at hfalse ⊢
  cases hs : h.scalar c with
  | error e => rw [hs] at hfalse; cases hfalse
  | ok s => rwa [hscalars c s hs, ← hs]

theorem Quiet.grows (hq : h.Quiet) (hg : h.Grows h') : h'.Quiet :=
  hq.of_scalars hg.symbols fun _ _ => hg.scalar_ok

theorem Shrinks.scalar_ok (hs : h.Shrinks h') (hc : h.scalar c = .ok s) (hlive : h'.isLive c) :
    h'.scalar c = .ok s := by
  obtain ⟨x', hx'⟩ := exists_cell hlive
  obtain ⟨y, hy, hsame, -⟩ := hs.cells c x' hx'
  exact scalar_eq_ok_iff.2 ⟨x', hx', hsame.trans (content_of_scalar hc hy)⟩

theorem Quiet.shrinks (hq : h.Quiet) (hs : h.Shrinks h') (hs' : h'.Sound σ) : h'.Quiet := by
  obtain ⟨c, hc, hfalse⟩ := hq
  have hc' := (errorCell_congr hs.symbols).trans hc
  refine ⟨c, hc', ?_⟩
  unfold isTrue at hfalse ⊢
  cases hscalar : h.scalar c with
  | error e => rw [hscalar] at hfalse; cases hfalse
  | ok s => rwa [hs.scalar_ok hscalar (hs'.isLive_errorCell hc'), ← hscalar]

/-- A heap in which one cell was written is as quiet as before, unless that is where errors are left. -/
theorem Quiet.besides_or {τ : List CellId} (hq : h.Quiet) (hs : h.Sound σ) (hs' : h'.Sound τ)
    (hf : h.Firm (Besides c) h') : h'.Quiet ∨ h.errorCell = .ok c := by
  obtain ⟨d, hd, hfalse⟩ := hq
  by_cases hne : d = c
  · exact .inr (hne ▸ hd)
  · obtain ⟨e, s, he, hscalar⟩ := hs.errorCell
    obtain rfl : e = d := Except.ok.inj (he.symm.trans hd)
    have hd' := (errorCell_congr hf.symbols).trans hd
    rw [isTrue_ok hscalar] at hfalse
    refine .inl ⟨e, hd', ?_⟩
    rw [isTrue_ok (hf.scalar_ok hscalar (fun y hy => hy hne) (hs'.isLive_errorCell hd'))]
    exact hfalse

theorem Quiet.writes {τ : List CellId} {x : Cell} (hq : h.Quiet) (hs : h.Sound σ) (hs' : h'.Sound τ)
    (hx : h.cell? c = some x) (hslot : x.content.slot? ≠ some .scalar) (hf : h.Firm (Besides c) h') :
    h'.Quiet := by
  refine (hq.besides_or hs hs' hf).resolve_right fun hc => ?_
  obtain ⟨d, s, hd, hscalar⟩ := hs.errorCell
  obtain rfl : d = c := Except.ok.inj (hd.symm.trans hc)
  exact hslot (by rw [content_of_scalar hscalar hx]; rfl)

theorem Firm.quiet {base : Heap} {same : Sameness} (hf : base.Firm same h) (hq : base.Quiet) (hs : h.Sound σ)
    (hscalar : ∀ c x y, base.scalar c = .ok x → same c (.scalar x) y → y = .scalar x) :
    h.Quiet := by
  obtain ⟨c, hc, hfalse⟩ := hq
  have hc' := (errorCell_congr hf.symbols).trans hc
  refine ⟨c, hc', ?_⟩
  unfold isTrue at hfalse ⊢
  cases hx : base.scalar c with
  | error e => rw [hx] at hfalse; cases hfalse
  | ok x => rwa [hf.scalar_ok hx (fun y => hscalar c x y hx) (hs.isLive_errorCell hc'), ← hx]

/-! ## The look at the pending error -/

theorem run_assign_plain {x : Cell} (hx : h.cell? dst = some x) (hdst : x.content = .scalar s)
    (hsrc : h.scalar src = .ok t) (ht : t.ref = none) :
    (assign dst src).run h =
      (releaseOption s.ref).run (h.setCell dst (some { x with content := .scalar t })) := by
  have hscalar : h.scalar dst = .ok s := scalar_eq_ok_iff.2 ⟨x, hx, hdst⟩
  obtain ⟨y, hy, hcontent⟩ := scalar_eq_ok_iff.1 hsrc
  have htake : (takeValue src).run h = (.ok t, h) := by
    rw [takeValue_eq, run_bind_ok (by rw [run_query, cell_ok hy]), hcontent, contentValue, ht]
    rfl
  have hset : (setContent dst (.scalar t)).run h =
      (.ok (), h.setCell dst (some { x with content := .scalar t })) :=
    run_bind_ok (by rw [run_query, cell_ok hx])
  rw [assign_eq, run_bind_ok (by rw [run_query, hscalar]), run_bind_ok htake,
    run_bind_ok (by rw [run_query, hscalar]), run_bind_ok hset]

theorem scalar_allocate (h : Heap) (s : Embedding.Scalar) :
    (h.allocate (.scalar s)).2.scalar (h.allocate (.scalar s)).1 = .ok s :=
  scalar_eq_ok_iff.2 ⟨_, by rw [cell?_allocate, if_pos rfl], rfl⟩

theorem run_clearError (hs : h.Sound σ) (hc : h.errorCell = .ok c) :
    ∃ h', clearError.run h = (.ok (), h') ∧ h.Evolves h' ∧ h'.Sound σ ∧ h.Firm (Besides c) h' ∧
      h'.scalar c = .ok (.ofBytes [] false) := by
  obtain ⟨_, h', hrun, hev, hs'⟩ := gives_clearError h σ hs
  obtain ⟨d, s, hd, hscalar⟩ := hs.errorCell
  obtain rfl : c = d := Except.ok.inj (hc.symm.trans hd)
  obtain ⟨x, hx, hcontent⟩ := scalar_eq_ok_iff.1 hscalar
  -- the empty string comes first, then the assignment and the two releases
  let empty := (h.allocate (.scalar (.ofBytes [] false))).1
  let h₁ := (h.allocate (.scalar (.ofBytes [] false))).2
  let h₂ := h₁.setCell c (some { x with content := .scalar (.ofBytes [] false) })
  have hne : c ≠ empty := fun e => Nat.lt_irrefl h.cells.size (by
    have := lt_of_cell? hx
    rwa [e] at this)
  have hx₁ : h₁.cell? c = some x := by rw [cell?_allocate, if_neg hne, hx]
  have hempty : h₁.scalar empty = .ok (.ofBytes [] false) := scalar_allocate h _
  have hset : (setError empty).run h₁ = (releaseOption s.ref).run h₂ := by
    have hc₁ : h₁.errorCell = .ok c := hc
    rw [setError, run_bind_ok (by rw [run_query, hc₁])]
    exact run_assign_plain hx₁ hcontent hempty rfl
  have hend : h' = ((release empty).run ((releaseOption s.ref).run h₂).2).2 := by
    have hnew : (newScalar (.ofBytes [] false)).run h = (.ok empty, h₁) := rfl
    rw [clearError, run_bind_ok hnew, run_bind_ok (run_attempt ..), run_bind] at hrun
    rw [← hset]
    generalize (release empty).run ((setError empty).run h₁).2 = p at hrun ⊢
    generalize ((setError empty).run h₁).1 = r at hrun
    obtain ⟨_ | _, h₃⟩ := p
    · cases hrun
    · cases r <;> cases hrun
      rfl
  have hshrinks : h₂.Shrinks h' := by
    rw [hend]
    exact (releaseOption_shrinks h₂ s.ref).trans (release_shrinks _ empty)
  have hc₂ : h₂.cell? c = some { x with content := .scalar (.ofBytes [] false) } := by
    rw [cell?_setCell, if_pos ⟨rfl, lt_of_cell? hx₁⟩]
  have hlive : h'.isLive c :=
    hs'.isLive_errorCell ((errorCell_congr hshrinks.symbols).trans hc)
  have hallocated : h.Firm (Besides c) h₁ :=
    (firm_refl (fun _ _ _ => rfl) h).unchanged (grows_allocate h _).firm
  have hset₂ : h₁.Firm (Besides c) h₂ :=
    firm_setCell hx₁ _ x.refcount (fun _ _ _ _ => rfl) fun hne => absurd rfl hne
  exact ⟨h', hrun, hev, hs', (hallocated.besides_trans hset₂).unchanged hshrinks.firm,
    hshrinks.scalar_ok (scalar_eq_ok_iff.2 ⟨_, hc₂, rfl⟩) hlive⟩

theorem Quiet.run_takeError (hq : h.Quiet) : takeError.run h = (.ok none, h) := by
  obtain ⟨c, hc, hfalse⟩ := hq
  rw [takeError, run_bind_ok (by rw [run_query, hc]), run_bind_ok (by rw [run_query, hfalse])]
  rfl

theorem run_takeError_none (hrun : takeError.run h = (.ok none, h')) : h' = h := by
  obtain ⟨c, -, htest⟩ := run_query_bind_eq_ok hrun
  obtain ⟨b, -, hend⟩ := run_query_bind_eq_ok htest
  split at hend
  · obtain ⟨value, h₁, -, hclear⟩ := run_bind_eq_ok hend
    obtain ⟨_, h₂, -, hsome⟩ := run_bind_eq_ok hclear
    cases hsome
  · cases hend
    rfl

theorem takeValue_scalar {x : Cell} (hx : h.cell? c = some x) (hcontent : x.content = .scalar s)
    {v : Embedding.Scalar} (hrun : (takeValue c).run h = (.ok v, h')) : v = s := by
  rw [takeValue_eq, run_bind_ok (by rw [run_query, cell_ok hx]), hcontent, contentValue] at hrun
  cases hr : s.ref with
  | none =>
    rw [hr] at hrun
    cases hrun
    rfl
  | some target =>
    rw [hr] at hrun
    obtain ⟨_, h₁, -, hreturn⟩ := run_bind_eq_ok hrun
    cases hreturn
    rfl

theorem run_assign_scalar (hd : h.scalar dst = .ok t) (hsrc : h.scalar src = .ok s) (hs : h.Sound σ)
    (hkept : ∀ {h' : Heap}, h'.Sound σ → h'.symbols = h.symbols → h'.isLive dst) :
    ∃ h', (assign dst src).run h = (.ok (), h') ∧ h'.Sound σ ∧ h.Firm (Besides dst) h' ∧
      h'.scalar dst = .ok s := by
  obtain ⟨y, hy, hcontent⟩ := scalar_eq_ok_iff.1 hsrc
  obtain ⟨_, h', hrun, -, hs'⟩ := gives_assign hd (isLive_of_cell? hy) σ hs
  have hf := preserves_assign h dst src h (firm_refl (fun _ _ _ => rfl) h)
  rw [hrun] at hf
  refine ⟨h', hrun, hs', hf, ?_⟩
  -- the value is taken, it is set, and what was there before is released
  obtain ⟨u, h₁, htake, -, -⟩ := gives_takeValue hy σ hs
  have hg := (takeValue_grows h src).of_run htake
  obtain rfl := takeValue_scalar hy hcontent htake
  have hd₁ := hg.scalar_ok hd
  obtain ⟨x, hx, -⟩ := scalar_eq_ok_iff.1 hd₁
  have hset : (setContent dst (.scalar u)).run h₁ =
      (.ok (), h₁.setCell dst (some { x with content := .scalar u })) :=
    run_bind_ok (by rw [run_query, cell_ok hx])
  have hwritten : (h₁.setCell dst (some { x with content := .scalar u })).scalar dst = .ok u :=
    scalar_eq_ok_iff.2 ⟨_, (cell?_setCell ..).trans (if_pos ⟨rfl, lt_of_cell? hx⟩), rfl⟩
  rw [assign_eq, run_bind_ok (by rw [run_query, hd]), run_bind_ok htake,
    run_bind_ok (by rw [run_query, hd₁]), run_bind_ok hset] at hrun
  have hshrinks := releaseOption_shrinks (h₁.setCell dst (some { x with content := .scalar u })) t.ref
  rw [hrun] at hshrinks
  exact hshrinks.scalar_ok hwritten (hkept hs' hf.symbols)

theorem run_copy (hs : h.Sound σ) (hc : h.scalar c = .ok s) :
    ∃ d h', (copy c).run h = (.ok d, h') ∧ h.Grows h' ∧ h'.Sound (d :: σ) ∧ h'.scalar d = .ok s ∧
      h.cells.size ≤ d.index := by
  obtain ⟨x, hx, hcontent⟩ := scalar_eq_ok_iff.1 hc
  obtain ⟨v, h₁, hrun, -, hs₁⟩ := gives_takeValue hx σ hs
  have hg := (takeValue_grows h c).of_run hrun
  obtain rfl := takeValue_scalar hx hcontent hrun
  refine ⟨_, _, by rw [copy, run_bind_ok hrun]; rfl, hg.trans (grows_allocate h₁ _),
    Sound.allocate (show h₁.Sound ((Content.scalar v).children ++ σ) from hs₁),
    scalar_allocate h₁ v, hg.size⟩

/-- A pending error is taken as a new cell with the value of its variable, which is emptied. -/
theorem Sound.run_takeError (hs : h.Sound σ) (hp : h.Pending) :
    ∃ c x h', h.errorCell = .ok c ∧ takeError.run h = (.ok (some x), h') ∧ h.Evolves h' ∧
      h'.Sound (x :: σ) ∧ h'.Quiet ∧ h'.scalar x = h.scalar c ∧
      h'.scalar c = .ok (.ofBytes [] false) := by
  obtain ⟨c, hc, htrue⟩ := hp
  obtain ⟨d, s, hd, hscalar⟩ := hs.errorCell
  obtain rfl : c = d := Except.ok.inj (hc.symm.trans hd)
  obtain ⟨x, h₁, hcopy, hg, hs₁, hx, hnew⟩ := run_copy hs hscalar
  have hc₁ := (errorCell_congr hg.symbols).trans hc
  obtain ⟨h₂, hclear, hev, hs₂, hfirm, hempty⟩ := run_clearError hs₁ hc₁
  -- the copy has a new number, so emptying the variable leaves it alone
  have hne : x ≠ c := fun e => by
    obtain ⟨y, hy, -⟩ := scalar_eq_ok_iff.1 hscalar
    exact Nat.not_lt.2 (e ▸ hnew) (lt_of_cell? hy)
  refine ⟨c, x, h₂, hc, ?_, hg.evolves.trans hev, hs₂, ⟨c, (errorCell_congr hfirm.symbols).trans hc₁,
    isTrue_ok hempty⟩, ?_, hempty⟩
  · rw [takeError, run_bind_ok (by rw [run_query, hc]), run_bind_ok (by rw [run_query, htrue]),
      if_pos rfl, run_bind_ok hcopy, run_bind_ok hclear, run_pure]
  · rw [hscalar]
    exact hfirm.scalar_ok hx (fun y hs => hs hne) (hs₂.isLive (List.mem_cons_self ..))

theorem quiet_takeError (hs : h.Sound σ) :
    ∃ o h', takeError.run h = (.ok o, h') ∧ h'.Sound (o.toList ++ σ) ∧ h'.Quiet ∧
      (o = none ↔ h.Quiet) := by
  rcases hs.quiet_or_pending with hq | hp
  · exact ⟨none, h, hq.run_takeError, hs, hq, by simp [hq]⟩
  · obtain ⟨c, x, h', -, hrun, -, hs', hq, -⟩ := hs.run_takeError hp
    exact ⟨some x, h', hrun, hs', hq, by simp [hs.quiet_iff, hp]⟩

theorem Sound.firm_takeError (hs : h.Sound σ) (hc : h.errorCell = .ok c) :
    h.Firm (Besides c) (takeError.run h).2 := by
  have hrefl : h.Firm (Besides c) h := firm_refl (fun _ _ _ => rfl) h
  rcases hs.quiet_or_pending with hq | ⟨d, hd, htrue⟩
  · rwa [hq.run_takeError]
  · obtain rfl : c = d := Except.ok.inj (hc.symm.trans hd)
    obtain ⟨e, s, he, hscalar⟩ := hs.errorCell
    obtain rfl : c = e := Except.ok.inj (hc.symm.trans he)
    obtain ⟨x, h₁, hcopy, hg, hs₁, -, -⟩ := run_copy hs hscalar
    obtain ⟨h₂, hclear, -, -, hfirm, -⟩ := run_clearError hs₁ ((errorCell_congr hg.symbols).trans hc)
    rw [takeError, run_bind_ok (by rw [run_query, hc]), run_bind_ok (by rw [run_query, htrue]),
      if_pos rfl, run_bind_ok hcopy, run_bind_ok hclear, run_pure]
    exact (hrefl.unchanged hg.firm).besides_trans hfirm

/-- A death leaves its message in a new cell for the caller, and in the variable for the pending error. -/
theorem Sound.run_die {α : Type} (hs : h.Sound σ) (hc : h.errorCell = .ok c) (message : String) :
    ∃ x h', (die message : HeapM α).run h = (.error (.died x), h') ∧ h'.errorCell = .ok c ∧ x ≠ c ∧
      h'.scalar x = .ok (.ofText message) ∧ h'.scalar c = .ok (.ofText message) ∧ h.Firm (Besides c) h' := by
  obtain ⟨d, s, hd, hscalar⟩ := hs.errorCell
  obtain rfl : c = d := Except.ok.inj (hc.symm.trans hd)
  let x := (h.allocate (.scalar (.ofText message))).1
  let h₁ := (h.allocate (.scalar (.ofText message))).2
  have hs₁ : h₁.Sound (x :: σ) := Sound.allocate hs
  have hc₁ : h₁.errorCell = .ok c := hc
  have hg : h.Grows h₁ := grows_allocate h _
  have hne : x ≠ c := by
    rintro rfl
    obtain ⟨y, hy, -⟩ := scalar_eq_ok_iff.1 hscalar
    exact Nat.lt_irrefl h.cells.size (lt_of_cell? hy)
  obtain ⟨h₂, hassign, hs₂, hfirm, hleft⟩ := run_assign_scalar (hg.scalar_ok hscalar) (scalar_allocate h _) hs₁
    fun hs' hsymbols => hs'.isLive_errorCell ((errorCell_congr hsymbols).trans hc₁)
  have hset : (setError x).run h₁ = (.ok (), h₂) := by
    rw [setError, run_bind_ok (by rw [run_query, hc₁])]
    exact hassign
  refine ⟨x, h₂, ?_, (errorCell_congr hfirm.symbols).trans hc₁, hne,
    hfirm.scalar_ok (scalar_allocate h _) (fun _ hsame => hsame hne) (hs₂.isLive (.head _)), hleft,
    ((firm_refl (fun _ _ _ => rfl) h).unchanged hg.firm).besides_trans hfirm⟩
  have hnew : (newScalar (.ofText message)).run h = (.ok x, h₁) := rfl
  rw [die, run_bind_ok hnew, run_bind_ok hset]
  rfl

end Embedding.Heap
