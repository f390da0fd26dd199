import Embedding.Proofs.Heap.Sound

/-!
# Stakes of heap operations

`Gives x h taken given` says that `x` succeeds on the heap `h`, uses up the stakes `taken` and hands
over the stakes `given`, and `Settles x h given` that, failing or not, it hands over what it should
and does not die. `Tracks x h tidy given` says it of an operation that may die, and that may lose
count of cells unless `tidy` holds, and `Loses x h tidy lost given` says which ones.
-/

namespace Embedding

def resultStakes {α : Type} (given : α → List CellId) : Except Fault α → List CellId
  | .ok a => given a
  | .error f => f.stakes

namespace Heap

variable {α β : Type}

def Gives (x : HeapM α) (h : Heap) (taken : List CellId) (given : α → List CellId) : Prop :=
  ∀ σ, h.Sound (taken ++ σ) →
    ∃ a h', x.run h = (.ok a, h') ∧ h.Evolves h' ∧ h'.Sound (given a ++ σ)

/-- A result that is no death. -/
def Deathless (r : Except Fault α) : Prop := ∀ e, r = .error e → e.diedValue? = none

theorem deathless_ok (a : α) : Deathless (.ok a) := fun _ h => by cases h

theorem deathless_error {e : Fault} (he : e.diedValue? = none) :
    Deathless (.error e : Except Fault α) := fun _ h => by cases h; exact he

theorem Deathless.bind {r : Except Fault α} {k : α → Except Fault β} (hr : Deathless r)
    (hk : ∀ a, r = .ok a → Deathless (k a)) : Deathless (r >>= k) := by
  cases r with
  | error e => exact deathless_error (hr e rfl)
  | ok a => exact hk a rfl

def Settles (x : HeapM α) (h : Heap) (given : α → List CellId) : Prop :=
  ∀ σ, h.Sound σ →
    Ends x h fun r h' => h.Evolves h' ∧ Deathless r ∧ h'.Sound (resultStakes given r ++ σ)

def Tracks (x : HeapM α) (h : Heap) (tidy : Prop) (given : α → List CellId) : Prop :=
  ∀ σ, h.Sound σ → Ends x h fun r h' => h.Evolves h' ∧
    ∃ leak, h'.Sound (resultStakes given r ++ (leak ++ σ)) ∧ (tidy → leak = [])

def Loses (x : HeapM α) (h : Heap) (tidy : Prop) (lost : List CellId) (given : α → List CellId) : Prop :=
  ∀ σ, h.Sound σ → Ends x h fun r h' => h.Evolves h' ∧
    h'.Sound (resultStakes given r ++ (lost ++ σ)) ∧ (tidy → lost = [])

section
variable {x : HeapM α} {f : α → HeapM β} {h h' : Heap} {taken rest lost : List CellId}
  {given : α → List CellId} {after : β → List CellId} {e : Fault}

theorem gives_pure (a : α) (h : Heap) (given : α → List CellId) :
    Gives (pure a) h (given a) given :=
  fun _ hs => ⟨a, h, rfl, .refl h, hs⟩

theorem Gives.bind_evolves (hx : Gives x h taken given)
    (hf : ∀ a h', x.run h = (.ok a, h') → h.Evolves h' → Gives (f a) h' (given a) after) :
    Gives (x >>= f) h taken after := by
  intro σ hs
  obtain ⟨a, h', hrun, hev, hs'⟩ := hx σ hs
  obtain ⟨b, h'', hrun', hev', hs''⟩ := hf a h' hrun hev σ hs'
  exact ⟨b, h'', by rw [run_bind_ok hrun, hrun'], hev.trans hev', hs''⟩

theorem Gives.bind (hx : Gives x h taken given)
    (hf : ∀ a h', x.run h = (.ok a, h') → Gives (f a) h' (given a) after) :
    Gives (x >>= f) h taken after := hx.bind_evolves fun a h' hrun _ => hf a h' hrun

theorem Gives.frame (hx : Gives x h taken given) (rest : List CellId) :
    Gives x h (taken ++ rest) fun a => given a ++ rest := by
  intro σ hs
  obtain ⟨a, h', hrun, hev, hs'⟩ := hx (rest ++ σ) (by simpa using hs)
  exact ⟨a, h', hrun, hev, by simpa using hs'⟩

theorem Gives.perm {taken' : List CellId} {given' : α → List CellId} (hx : Gives x h taken given)
    (ht : taken'.Perm taken) (hg : ∀ a, (given a).Perm (given' a)) : Gives x h taken' given' := by
  intro σ hs
  obtain ⟨a, h', hrun, hev, hs'⟩ := hx σ (hs.perm (ht.append_right σ))
  exact ⟨a, h', hrun, hev, hs'.perm ((hg a).append_right σ)⟩

theorem Gives.of_run {x' : HeapM α} (hx : Gives x h taken given) (hrun : x'.run h = x.run h) :
    Gives x' h taken given := by
  intro σ hs
  obtain ⟨a, h', hrun', rest⟩ := hx σ hs
  exact ⟨a, h', hrun.trans hrun', rest⟩

theorem Gives.settles (hx : Gives x h [] given) : Settles x h given := by
  intro σ hs
  obtain ⟨a, h', hrun, hev, hs'⟩ := hx σ hs
  exact ends_of_run hrun ⟨hev, deathless_ok a, hs'⟩

theorem settles_error (hrun : x.run h = (.error e, h)) (he : e.diedValue? = none) :
    Settles x h given :=
  fun σ hs => ends_of_run hrun
    ⟨.refl h, deathless_error he, by simpa [resultStakes, Fault.stakes, he] using hs⟩

theorem Settles.bind (hx : Settles x h given)
    (hf : ∀ a h', x.run h = (.ok a, h') → Gives (f a) h' (given a) after) :
    Settles (x >>= f) h after := by
  intro σ hs
  have hx := hx σ hs
  unfold Ends at hx
  cases hrun : x.run h with
  | mk r h' =>
    rw [hrun] at hx
    cases r with
    | error e =>
      exact ends_of_run (run_bind_error hrun) ⟨hx.1, deathless_error (hx.2.1 e rfl), hx.2.2⟩
    | ok a =>
      obtain ⟨b, h'', hrun', hev, hs'⟩ := hf a h' hrun σ hx.2.2
      exact ends_of_run ((run_bind_ok hrun).trans hrun') ⟨hx.1.trans hev, deathless_ok b, hs'⟩

theorem Settles.tracks (hx : Settles x h given) (tidy : Prop) : Tracks x h tidy given :=
  fun σ hs => (hx σ hs).mono fun _ _ ⟨hev, _, hs'⟩ => ⟨hev, [], hs', fun _ => rfl⟩

theorem Tracks.bind {tidy : Prop} (hx : Tracks x h tidy fun _ => [])
    (hf : ∀ a h', x.run h = (.ok a, h') → Tracks (f a) h' tidy after) :
    Tracks (x >>= f) h tidy after := by
  intro σ hs
  have hx := hx σ hs
  unfold Ends at hx
  cases hrun : x.run h with
  | mk r h' =>
    rw [hrun] at hx
    obtain ⟨hev, leak, hs', htidy⟩ := hx
    cases r with
    | error e => exact ends_of_run (run_bind_error hrun) ⟨hev, leak, hs', htidy⟩
    | ok a =>
      obtain ⟨hev', leak', hs'', htidy'⟩ := hf a h' hrun (leak ++ σ) hs'
      unfold Ends
      rw [run_bind_ok hrun]
      refine ⟨hev.trans hev', leak' ++ leak, by simpa using hs'', fun ht => ?_⟩
      rw [htidy ht, htidy' ht]
      rfl

theorem Tracks.bind_loses {tidy : Prop} (hx : Tracks x h True fun _ => [])
    (hf : ∀ a h', x.run h = (.ok a, h') → Loses (f a) h' tidy lost after)
    (he : ∀ e h', x.run h = (.error e, h') → lost = []) : Loses (x >>= f) h tidy lost after := by
  intro σ hs
  have hx := hx σ hs
  unfold Ends at hx
  cases hrun : x.run h with
  | mk r h' =>
    rw [hrun] at hx
    obtain ⟨hev, leak, hs', htidy⟩ := hx
    obtain rfl := htidy trivial
    cases r with
    | error e =>
      rw [he e h' hrun]
      exact ends_of_run (run_bind_error hrun) ⟨hev, hs', fun _ => rfl⟩
    | ok a =>
      obtain ⟨hev', hs'', htidy'⟩ := hf a h' hrun σ hs'
      unfold Ends
      rw [run_bind_ok hrun]
      exact ⟨hev.trans hev', hs'', htidy'⟩

theorem Tracks.of_run {x' : HeapM α} {tidy : Prop} (hx : Tracks x h tidy given)
    (hrun : x'.run h = x.run h) : Tracks x' h tidy given := by
  intro σ hs
  have := hx σ hs
  unfold Ends at this ⊢
  rwa [hrun]

theorem Gives.tracks (hx : Gives x h [] given) (tidy : Prop) : Tracks x h tidy given :=
  hx.settles.tracks tidy

theorem Loses.tracks {tidy : Prop} (hx : Loses x h tidy lost given) : Tracks x h tidy given :=
  fun σ hs => (hx σ hs).mono fun _ _ ⟨hev, hs', htidy⟩ => ⟨hev, lost, hs', htidy⟩

theorem Tracks.loses (hx : Tracks x h True given) (tidy : Prop) : Loses x h tidy [] given :=
  fun σ hs => (hx σ hs).mono fun _ _ ⟨hev, _, hs', htidy⟩ =>
    ⟨hev, htidy trivial ▸ hs', fun _ => rfl⟩

theorem Settles.loses (hx : Settles x h given) (tidy : Prop) : Loses x h tidy [] given :=
  (hx.tracks True).loses tidy

theorem Gives.loses (hx : Gives x h [] given) (tidy : Prop) : Loses x h tidy [] given :=
  hx.settles.loses tidy

end

/-! ## Queries -/

section
variable {h : Heap} {f : Heap → Except Fault α} {k : α → HeapM β}
  {taken : List CellId} {given : β → List CellId}

theorem run_query (f : Heap → Except Fault α) (h : Heap) : (query f).run h = (f h, h) := rfl

theorem run_query_bind_eq_ok {f : Heap → Except Fault α} {k : α → HeapM β} {b : β} {h h' : Heap}
    (hrun : (query f >>= k).run h = (.ok b, h')) : ∃ a, f h = .ok a ∧ (k a).run h = (.ok b, h') := by
  cases hf : f h with
  | error e =>
    rw [run_bind_error (by rw [run_query, hf])] at hrun
    cases hrun
  | ok a =>
    rw [run_bind_ok (by rw [run_query, hf])] at hrun
    exact ⟨a, rfl, hrun⟩

theorem gives_query {a : α} (hf : f h = .ok a) (hk : Gives (k a) h taken given) :
    Gives (query f >>= k) h taken given :=
  hk.of_run (run_bind_ok (by rw [run_query, hf]))

theorem settles_query (hf : Deathless (f h)) (hk : ∀ a, f h = .ok a → Settles (k a) h given) :
    Settles (query f >>= k) h given := by
  cases ha : f h with
  | error e => exact settles_error (run_bind_error (by rw [run_query, ha])) (hf e ha)
  | ok a =>
    intro σ hs
    have := hk a ha σ hs
    unfold Ends at this ⊢
    rwa [run_bind_ok (by rw [run_query, ha])]

theorem tracks_query {tidy : Prop} (hf : Deathless (f h))
    (hk : ∀ a, f h = .ok a → Tracks (k a) h tidy given) : Tracks (query f >>= k) h tidy given := by
  cases ha : f h with
  | error e => exact (settles_error (run_bind_error (by rw [run_query, ha])) (hf e ha)).tracks tidy
  | ok a => exact (hk a ha).of_run (run_bind_ok (by rw [run_query, ha]))

theorem loses_query {tidy : Prop} {lost : List CellId} (hf : Deathless (f h))
    (hk : ∀ a, f h = .ok a → Loses (k a) h tidy lost given) (he : ∀ e, f h = .error e → lost = []) :
    Loses (query f >>= k) h tidy lost given := by
  cases ha : f h with
  | error e =>
    rw [he e ha]
    exact (settles_error (run_bind_error (by rw [run_query, ha])) (hf e ha)).loses tidy
  | ok a =>
    intro σ hs
    have := hk a ha σ hs
    unfold Ends at this ⊢
    rwa [run_bind_ok (by rw [run_query, ha])]

theorem settles_ask (hf : Deathless (f h)) {given : α → List CellId} (hg : ∀ a, given a = []) :
    Settles (query f) h given := by
  intro σ hs
  cases ha : f h with
  | error e =>
    exact settles_error (by rw [run_query, ha]) (hf e ha) σ hs
  | ok a =>
    exact ends_of_run (by rw [run_query, ha])
      ⟨.refl h, deathless_ok a, by simpa [resultStakes, hg] using hs⟩

end

section
variable (h : Heap) (c : CellId)

theorem deathless_cell : Deathless (h.cell c) :=
  fun _ he => by rw [(cell_eq_error_iff.1 he).2]; rfl

theorem deathless_scalar : Deathless (h.scalar c) := by
  refine (deathless_cell h c).bind fun x _ => ?_
  cases x.content <;> first | exact deathless_ok _ | exact deathless_error rfl

theorem deathless_items : Deathless (h.items c) := by
  refine (deathless_cell h c).bind fun x _ => ?_
  cases x.content <;> first | exact deathless_ok _ | exact deathless_error rfl

theorem deathless_hash : Deathless (h.hash c) := by
  refine (deathless_cell h c).bind fun x _ => ?_
  cases x.content <;> first | exact deathless_ok _ | exact deathless_error rfl

theorem deathless_entries : Deathless (h.entries c) :=
  (deathless_hash h c).bind fun _ _ => deathless_ok _

theorem deathless_kind : Deathless (h.kind c) :=
  (deathless_cell h c).bind fun _ _ => deathless_ok _

theorem deathless_target : Deathless (h.target c) := by
  refine (deathless_cell h c).bind fun x _ => ?_
  cases x.content with
  | scalar s =>
    cases hr : s.ref with
    | some d => simp only [hr]; exact deathless_ok d
    | none => simp only [hr]; exact deathless_error rfl
  | _ => exact deathless_error rfl

theorem deathless_className : Deathless (h.className c) := by
  refine (deathless_kind h c).bind fun k _ => ?_
  split
  · exact (deathless_target h c).bind fun d _ => (deathless_cell h d).bind fun _ _ => deathless_ok _
  · exact deathless_ok _

theorem deathless_identity : Deathless (h.identity c) := by
  refine (deathless_kind h c).bind fun k _ => ?_
  split
  · exact deathless_target h c
  · exact deathless_ok _

theorem deathless_describe : Deathless (h.describe c) :=
  (deathless_cell h c).bind fun _ _ => deathless_ok _

theorem deathless_toBytes : Deathless (h.toBytes c) := by
  refine (deathless_cell h c).bind fun x _ => ?_
  split
  · split
    · exact deathless_ok _
    · exact deathless_ok _
    · exact deathless_ok _
    · exact (deathless_describe h _).bind fun _ _ => deathless_ok _
    · exact deathless_ok _
  · exact deathless_ok _
  · exact (deathless_describe h c).bind fun _ _ => deathless_ok _

theorem deathless_map_scalar (f : Scalar → α) : Deathless (do return f (← h.scalar c)) :=
  (deathless_scalar h c).bind fun _ _ => deathless_ok _

end

end Heap

end Embedding
