import Embedding.Host.Crossing
import Embedding.Proofs.Heap.Drafts
import Embedding.Proofs.Heap.Lists
import Embedding.Proofs.Host.Steps
import Embedding.Proofs.Host.Values

/-!
# Values become drafts

A host makes cells of a value part by part and gives back what it has made when a part turns out to have
no representation. While no error is pending, either way ends in a draft: with a stake in the new cell,
or with no stake besides those from before.
-/

namespace Embedding

open Heap
open HostM (holding)

/-- An operation on a session ends in a draft, with the stakes that it gives if it succeeds, and with none
if it fails. -/
def Drafting {α : Type} (w : World) (s : SessionId) (base : Heap) (σ : List CellId) (n : Nat)
    (given : α → List CellId) (P : α → Heap → Prop) : Except HostError α → World → Prop
  | .ok a, w' => ∃ h, w' = w.put s h (n + (given a).length) ∧ Draft base h (given a ++ σ) ∧ P a h
  | .error e, w' => e.handles = [] ∧ ∃ h, w' = w.put s h n ∧ Draft base h σ

/-- The handle of a scalar that was made since the heap was `start`, with nothing in it that came between
`base` and `start`. -/
structure NewScalar (s : SessionId) (base start : Heap) (c : Handle) (h : Heap) : Prop where
  session : c.session = s
  firm : start.Firm Unchanged h
  new : base.cells.size ≤ c.cell.index
  holds : ∃ x, h.scalar c.cell = .ok x ∧ RefersOutside base.cells.size start.cells.size x

variable {α : Type} {w w' : World} {s : SessionId} {setup : Setup} {base start h h' : Heap}
  {σ τ : List CellId} {n : Nat} {a c : CellId} {x : Scalar} {content : Content}
  {given : α → List CellId} {P : α → Heap → Prop}

theorem NewScalar.shrinks {c : Handle} (hn : NewScalar s base start c h) (hs : h.Shrinks h')
    (hc : h'.isLive c.cell) : NewScalar s base start c h' := by
  obtain ⟨x, hx, hout⟩ := hn.holds
  exact { hn with firm := hn.firm.unchanged hs.firm, holds := ⟨x, (hs.scalar_iff hc).2 hx, hout⟩ }

theorem Drafting.mono {Q : α → Heap → Prop} {r : Except HostError α}
    (hr : Drafting w s base σ n given P r w') (hP : ∀ {a h}, P a h → Q a h) :
    Drafting w s base σ n given Q r w' := by
  cases r with
  | error e => exact hr
  | ok a =>
    obtain ⟨h, hw, hd, hp⟩ := hr
    exact ⟨h, hw, hd, hP hp⟩

theorem Heap.RefersOutside.mono {l m n : Nat} (hx : RefersOutside l n x) (hmn : m ≤ n) :
    RefersOutside l m x := fun t ht => (hx t ht).imp_right (Nat.le_trans hmn)

/-- Views of cells of the session become references to them, and those of other sessions are refused. -/
theorem drafts_view (hd : Draft base h σ) {v : Value} {view : Handle} {x : HostM Handle}
    (hx : view.session = s → Ends x (w.put s h n)
      (Drafting w s base σ n (fun c => [c.cell]) (NewScalar s base h))) :
    Ends (do ensureOwn s v view; x) (w.put s h n)
      (Drafting w s base σ n (fun c => [c.cell]) (NewScalar s base h)) := by
  by_cases hs : view.session = s
  · have hown : (ensureOwn s v view).run (w.put s h n) = (.ok (), w.put s h n) := by
      rw [ensureOwn, if_pos hs]
      rfl
    unfold Ends
    rw [run_bind_ok hown]
    exact hx hs
  · have hrefused : (ensureOwn s v view).run (w.put s h n) = (.error (.conversion v.typeName
        "foreign value" "the value belongs to a different interpreter session"), w.put s h n) := by
      rw [ensureOwn, if_neg hs]
      rfl
    exact ends_of_run (run_bind_error hrefused) ⟨rfl, h, rfl, hd⟩

section
variable (hk : w.KeptOn s setup base)
include hk

/-- A handle that was used on the way is released in the end, however it ends. -/
theorem Drafting.holding {x : HostM α}
    (hx : Ends x w' (Drafting w s base (a :: σ) (n + 1) given P))
    (hP : ∀ {r h h'}, P r h → h.Shrinks h' → h'.Sound (given r ++ σ) → P r h') :
    Ends (holding [⟨s, a⟩] x) w' (Drafting w s base σ n given P) := by
  unfold Ends at hx ⊢
  rw [HostM.run_holding, World.releaseAll, List.foldl_cons, List.foldl_nil]
  generalize x.run w' = p at hx
  obtain ⟨r, w₁⟩ := p
  dsimp only at hx ⊢
  cases r with
  | error e =>
    obtain ⟨he, h, rfl, hd⟩ := hx
    obtain ⟨h', hrelease, hd', -⟩ := hd.release
    rw [hk.release hrelease]
    exact ⟨he, h', rfl, hd'⟩
  | ok r =>
    obtain ⟨h, rfl, hd, hp⟩ := hx
    obtain ⟨h', hrelease, hd', hshrinks⟩ := (hd.perm List.perm_middle).release
    rw [Nat.add_right_comm, hk.release hrelease]
    exact ⟨h', rfl, hd', hP hp hshrinks hd'.sound⟩

theorem Drafting.orRelease {x : HostM α}
    (hx : Ends x w' (Drafting w s base (a :: σ) (n + 1) given P)) :
    Ends (HostM.orRelease [⟨s, a⟩] x) w' (Drafting w s base σ n (fun r => a :: given r) P) := by
  unfold Ends at hx ⊢
  rw [HostM.run_orRelease]
  generalize x.run w' = p at hx
  obtain ⟨r, w₁⟩ := p
  dsimp only at hx
  cases r with
  | error e =>
    obtain ⟨he, h, rfl, hd⟩ := hx
    obtain ⟨h', hrelease, hd', -⟩ := hd.release
    dsimp only
    rw [World.releaseAll, List.foldl_cons, List.foldl_nil, hk.release hrelease]
    exact ⟨he, h', rfl, hd'⟩
  | ok r =>
    obtain ⟨h, rfl, hd, hp⟩ := hx
    refine ⟨h, ?_, hd.perm List.perm_middle, hp⟩
    rw [List.length_cons, Nat.add_assoc, Nat.add_comm 1]

variable (hq : base.Quiet)
include hq

/-! ## Single cells -/

theorem drafts_leaf (hd : Draft base h σ) {request : Request Handle .cell} (hx : x.ref = none)
    (hanswer : Heap.answer setup (request.map Handle.cell) = Heap.newScalar x) :
    Ends (cross s crossing request) (w.put s h n)
      (Drafting w s base σ n (fun c => [c.cell]) (NewScalar s base h)) := by
  have hrun : (Heap.answer setup (request.map Handle.cell)).run h =
      (.ok ⟨h.cells.size⟩, (h.allocate (.scalar x)).2) := by
    rw [hanswer]
    rfl
  have hd' := hd.newScalar hx
  refine ends_of_run (hk.run_cross crossing request hrun (hd'.quiet hq)) ⟨_, rfl, hd', ?_⟩
  refine ⟨rfl, (grows_allocate h _).firm, hd.tended.firm.size, x, scalar_allocate h x, fun t ht => ?_⟩
  rw [hx] at ht
  cases ht

theorem drafts_reference (hd : Draft base h σ) (hc : h.isLive c)
    (htarget : c.index < base.cells.size ∨ ∀ u, h.scalar c ≠ .ok u)
    (hout : c.index < base.cells.size ∨ start.cells.size ≤ c.index) (hf : start.Firm Unchanged h) :
    Ends (newReference s ⟨s, c⟩) (w.put s h n)
      (Drafting w s base σ n (fun c => [c.cell]) (NewScalar s base start)) := by
  obtain ⟨h', hrun, hd', hg, hscalar⟩ := hd.newRef hc htarget
  refine ends_of_run (hk.run_cross crossing (.newRef ⟨s, c⟩) hrun (hd'.quiet hq)) ⟨h', rfl, hd', ?_⟩
  refine ⟨rfl, hf.unchanged hg.firm, hd.tended.firm.size, _, hscalar, fun t ht => ?_⟩
  cases ht
  exact hout

/-- The object behind a reference gets one more, if the reference is still one. -/
theorem drafts_object (hbase : base.Exact τ) (hsub : τ ⊆ σ) (hd : Draft base h σ) {reference : Handle}
    (hs : reference.session = s) (hlive : reference.session = s → base.isLive reference.cell) : Ends (do
      let target ← cross s crossing (.deref reference)
      holding [target] do newReference s target) (w.put s h n)
      (Drafting w s base σ n (fun c => [c.cell]) (NewScalar s base h)) := by
  have href : reference = ⟨s, reference.cell⟩ := congrArg (Handle.mk · reference.cell) hs
  have hc := hlive hs
  rw [href]
  generalize reference.cell = c at hc
  have hlt : c.index < base.cells.size := by
    obtain ⟨x, hx⟩ := exists_cell hc
    exact lt_of_cell? hx
  cases htarget : h.target c with
  | error fault =>
    have hrun : (deref c).run h = (.error fault, h) := by
      rw [deref, run_bind_error (by rw [run_query, htarget])]
    have hcross := hk.run_cross_error (n := n) crossing (.deref ⟨s, c⟩) hrun (hd.quiet hq)
      (deathless_target h c fault htarget)
    exact ends_of_run (run_bind_error hcross) ⟨toHostError_handles _ _, h, rfl, hd⟩
  | ok t =>
    have ht := hd.isLive_target hbase hlt htarget
    have htlt : t.index < base.cells.size := by
      obtain ⟨x, hx⟩ := exists_cell ht
      exact lt_of_cell? hx
    obtain ⟨h₁, hretain, hd₁, hg, hsize⟩ := hd.retain (hd.isLive hbase hsub ht)
    have hrun : (deref c).run h = (.ok t, h₁) := by
      rw [deref, run_bind_ok (by rw [run_query, htarget]), run_bind_ok hretain]
      rfl
    have hcross := hk.run_cross (n := n) crossing (.deref ⟨s, c⟩) hrun (hd₁.quiet hq)
    unfold Ends
    rw [run_bind_ok hcross]
    refine Drafting.holding hk ?_ fun hnew hshrinks hs => hnew.shrinks hshrinks (hs.isLive (.head _))
    exact drafts_reference hk hq hd₁ (hg.isLive (hd.isLive hbase hsub ht)) (.inl htlt) (.inl htlt)
      hg.firm

theorem drafts_own (hbase : base.Exact τ) (hsub : τ ⊆ σ) (hd : Draft base h σ) {v : Value}
    {view : Handle} (hlive : view.session = s → base.isLive view.cell) :
    Ends (do ensureOwn s v view; newReference s view) (w.put s h n)
      (Drafting w s base σ n (fun c => [c.cell]) (NewScalar s base h)) := by
  refine drafts_view hd ?_
  rintro rfl
  obtain ⟨x, hx⟩ := exists_cell (hlive rfl)
  have hlt := lt_of_cell? hx
  exact drafts_reference hk hq hd (hd.isLive hbase hsub (hlive rfl)) (.inl hlt) (.inl hlt)
    (Grows.refl h).firm

/-! ## Containers -/

/-- A new container is filled and then referred to. -/
theorem drafts_container (hd : Draft base h σ) {request : Request Handle .cell} {fill : Handle → HostM Unit}
    (hanswer : Heap.answer setup (request.map Handle.cell) = alloc content)
    (hchildren : content.children = []) (hnot : ∀ x, content ≠ .scalar x)
    (hfill : ∀ h₁ a, h₁.cell? a = some ⟨1, none, content⟩ → base.cells.size ≤ a.index →
      Draft base h₁ (a :: σ) → Ends (fill ⟨s, a⟩) (w.put s h₁ (n + 1))
        (Drafting w s base (a :: σ) (n + 1) (fun _ => [])
          fun _ h₂ => h₁.Firm (Besides a) h₂ ∧ ∀ x, h₂.scalar a ≠ .ok x)) :
    Ends (do
      let c ← cross s crossing request
      holding [c] do
        fill c
        newReference s c) (w.put s h n)
      (Drafting w s base σ n (fun c => [c.cell]) (NewScalar s base h)) := by
  have hrun : (Heap.answer setup (request.map Handle.cell)).run h =
      (.ok ⟨h.cells.size⟩, (h.allocate content).2) := by
    rw [hanswer]
    rfl
  have hd₁ := hd.newContainer hchildren hnot
  have hcross := hk.run_cross (n := n) crossing request hrun (hd₁.quiet hq)
  have hsize := hd.tended.firm.size
  unfold Ends
  rw [run_bind_ok hcross]
  refine Drafting.holding hk ?_ fun hnew hshrinks hs => hnew.shrinks hshrinks (hs.isLive (.head _))
  refine (hfill _ _ (cell?_new h content) hsize hd₁).bind ?_ fun e w' he => he
  rintro ⟨⟩ w' ⟨h₂, rfl, hd₂, hf, hcontainer⟩
  have hfirm : h.Firm Unchanged h₂ := (grows_allocate h content).firm.besides hf (Nat.le_refl _)
  exact drafts_reference hk hq hd₂ (hd₂.sound.isLive (.head _)) (.inr hcontainer)
    (.inr (Nat.le_refl _)) hfirm

theorem drafts_storing (request : Request Handle .nothing) {c : Handle} {Q : Heap → Prop} (ha : a ∈ σ)
    (hlt : a.index < start.cells.size) (hc : NewScalar s base start c h)
    (hstore : ∀ x, h.scalar c.cell = .ok x → RefersOutside base.cells.size (a.index + 1) x →
      ∃ h', (Heap.answer setup (request.map Handle.cell)).run h = (.ok (), h') ∧
        Draft base h' (c.cell :: σ) ∧ Q h')
    (hQ : ∀ {h h'}, Q h → h.Shrinks h' → h'.isLive a → Q h') :
    Ends (holding [c] (cross s crossing request)) (w.put s h (n + 1))
      (Drafting w s base σ n (fun _ => []) fun _ => Q) := by
  obtain ⟨rfl⟩ := hc.session
  obtain ⟨x, hx, hout⟩ := hc.holds
  obtain ⟨h', hrun, hd', hQ'⟩ := hstore x hx (hout.mono hlt)
  have hcross := hk.run_cross (n := n + 1) crossing request hrun (hd'.quiet hq)
  refine Drafting.holding hk (ends_of_run hcross ⟨h', rfl, hd', hQ'⟩) fun hQ' hshrinks hs => ?_
  exact hQ hQ' hshrinks (hs.isLive ha)

mutual

theorem drafts_newCell (hbase : base.Exact τ) : ∀ {v : Value}, (∀ c ∈ v.handles, c.session = s → base.isLive c.cell) →
    ∀ {h σ n}, τ ⊆ σ → Draft base h σ → Ends (newCell s v) (w.put s h n)
      (Drafting w s base σ n (fun c => [c.cell]) (NewScalar s base h))
  | .nothing, _, _, _, _, _, hd => drafts_leaf hk hq hd (x := .undef) rfl rfl
  | .bool b, _, _, _, _, _, hd => drafts_leaf hk hq hd (x := .ofBool b) rfl rfl
  | .int i, _, _, _, _, _, hd => drafts_leaf hk hq hd (x := .ofInt i) rfl rfl
  | .float f, _, _, _, _, _, hd => drafts_leaf hk hq hd (x := .ofNum f) rfl rfl
  | .text t, _, _, _, _, _, hd => drafts_leaf hk hq hd (x := .ofBytes (Utf8.encode t) true) rfl rfl
  | .bytes bs, _, _, _, _, _, hd => drafts_leaf hk hq hd (x := .ofBytes bs false) rfl rfl
  | .list _, hlive, _, _, _, hsub, hd =>
    drafts_container hk hq hd rfl rfl (fun _ => Content.noConfusion) fun _ _ hcell ha hd₁ =>
      drafts_storeItems hbase hlive (List.subset_cons_of_subset _ hsub) (.head _) ha hd₁
        (items_eq_ok_iff.2 ⟨_, hcell, rfl⟩)
  | .mapping _, hlive, _, _, _, hsub, hd =>
    drafts_container hk hq hd rfl rfl (fun _ => Content.noConfusion) fun _ _ hcell ha hd₁ =>
      drafts_storeEntries hbase hlive (List.subset_cons_of_subset _ hsub) (.head _) ha hd₁
        (hash_eq_ok_iff.2 ⟨_, hcell, rfl⟩)
  | .array _, hlive, _, _, _, hsub, hd => drafts_own hk hq hbase hsub hd (hlive _ (.head _))
  | .hash _, hlive, _, _, _, hsub, hd => drafts_own hk hq hbase hsub hd (hlive _ (.head _))
  | .callable (.code _), hlive, _, _, _, hsub, hd =>
    drafts_own hk hq hbase hsub hd (hlive _ (.head _))
  | .callable (.method ..), _, h, _, _, _, hd => ⟨rfl, h, rfl, hd⟩
  | .object _, hlive, _, _, _, hsub, hd =>
    drafts_view hd fun hs => drafts_object hk hq hbase hsub hd hs (hlive _ (.head _))

theorem drafts_storeItems (hbase : base.Exact τ) : ∀ {vs : List Value},
    (∀ c ∈ Value.handlesOfItems vs, c.session = s → base.isLive c.cell) → ∀ {h σ a items n}, τ ⊆ σ →
    a ∈ σ → base.cells.size ≤ a.index → Draft base h σ → h.items a = .ok items →
    Ends (storeItems s ⟨s, a⟩ items.size vs) (w.put s h n) (Drafting w s base σ n (fun _ => [])
      fun _ h' => h.Firm (Besides a) h' ∧ ∀ x, h'.scalar a ≠ .ok x)
  | [], _, h, _, _, _, _, _, _, _, hd, hitems => by
    obtain ⟨x, hx, hcontent⟩ := items_eq_ok_iff.1 hitems
    exact ⟨h, rfl, hd, firm_refl (fun _ _ _ => rfl) h, not_scalar hx fun u hu => by
      rw [hcontent] at hu
      cases hu⟩
  | v :: vs, hlive, h, σ, a, items, n, hsub, ha, hnew, hd, hitems => by
    have hlt : a.index < h.cells.size := lt_of_cell? (items_eq_ok_iff.1 hitems).choose_spec.1
    rw [storeItems]
    refine (drafts_newCell hbase (fun c hc => hlive c (List.mem_append_left _ hc)) hsub hd).bind ?_
      fun _ _ he => he
    rintro c _ ⟨h₁, rfl, hd₁, hc⟩
    have hitems₁ := hc.firm.items_ok hitems (hd₁.sound.isLive (.tail _ ha)) fun _ _ => .inl
    refine (drafts_storing hk hq (.arrayStore ⟨s, a⟩ items.size c)
      (Q := fun h₂ => h.Firm (Besides a) h₂ ∧ h₂.items a = .ok (items.push ⟨h₁.cells.size⟩)) ha hlt hc (fun x hx hout => ?_) fun hQ hshrinks ha' => ?_).bind ?_ fun _ _ he => he
    · obtain ⟨h₂, hrun, hd₂, hf, hitems₂⟩ := hd₁.arrayStore hnew hitems₁ hc.new hx hout
      exact ⟨h₂, hrun, hd₂, hc.firm.trans hf fun _ _ _ _ _ hs hs' hne => (hs' hne).trans hs, hitems₂⟩
    · exact ⟨hQ.1.unchanged hshrinks.firm, hshrinks.items_ok hQ.2 ha'⟩
    · rintro ⟨⟩ _ ⟨h₂, rfl, hd₂, hf, hitems₂⟩
      have hrest := drafts_storeItems hbase (n := n) (fun c hc => hlive c (List.mem_append_right _ hc))
        hsub ha hnew hd₂ hitems₂
      rw [Array.size_push] at hrest
      exact hrest.mono fun _ _ hr => hr.mono fun hp => ⟨hf.besides_trans hp.1, hp.2⟩

theorem drafts_storeEntries (hbase : base.Exact τ) : ∀ {entries : List (String × Value)},
    (∀ c ∈ Value.handlesOfEntries entries, c.session = s → base.isLive c.cell) →
    ∀ {h σ a d i n}, τ ⊆ σ → a ∈ σ → base.cells.size ≤ a.index → Draft base h σ →
    h.hash a = .ok (d, i) → Ends (storeEntries s ⟨s, a⟩ entries) (w.put s h n)
      (Drafting w s base σ n (fun _ => [])
        fun _ h' => h.Firm (Besides a) h' ∧ ∀ x, h'.scalar a ≠ .ok x)
  | [], _, h, _, _, _, _, _, _, _, _, hd, hhash => by
    obtain ⟨x, hx, hcontent⟩ := hash_eq_ok_iff.1 hhash
    exact ⟨h, rfl, hd, firm_refl (fun _ _ _ => rfl) h, not_scalar hx fun u hu => by
      rw [hcontent] at hu
      cases hu⟩
  | (key, v) :: entries, hlive, h, σ, a, d, i, n, hsub, ha, hnew, hd, hhash => by
    have hlt : a.index < h.cells.size := lt_of_cell? (hash_eq_ok_iff.1 hhash).choose_spec.1
    rw [storeEntries]
    refine (drafts_newCell hbase (fun c hc => hlive c (List.mem_append_left _ hc)) hsub hd).bind ?_
      fun _ _ he => he
    rintro c _ ⟨h₁, rfl, hd₁, hc⟩
    have hhash₁ := hc.firm.hash_ok hhash (hd₁.sound.isLive (.tail _ ha))
    refine (drafts_storing hk hq (.hashStore ⟨s, a⟩ key c)
      (Q := fun h₂ => h.Firm (Besides a) h₂ ∧ h₂.hash a = .ok (d.insert key ⟨h₁.cells.size⟩, i)) ha hlt hc (fun x hx hout => ?_) fun hQ hshrinks ha' => ?_).bind ?_ fun _ _ he => he
    · obtain ⟨h₂, hrun, hd₂, hf, hhash₂⟩ :=
        hd₁.hashStore hnew hhash₁ key hc.new hx hout (.tail _ ha)
      exact ⟨h₂, hrun, hd₂, hc.firm.trans hf fun _ _ _ _ _ hs hs' hne => (hs' hne).trans hs, hhash₂⟩
    · exact ⟨hQ.1.unchanged hshrinks.firm, hshrinks.hash_ok hQ.2 ha'⟩
    · rintro ⟨⟩ _ ⟨h₂, rfl, hd₂, hf, hhash₂⟩
      have hrest := drafts_storeEntries hbase (n := n)
        (fun c hc => hlive c (List.mem_append_right _ hc)) hsub ha hnew hd₂ hhash₂
      exact hrest.mono fun _ _ hr => hr.mono fun hp => ⟨hf.besides_trans hp.1, hp.2⟩

end

/-! ## Several cells -/

/-- The cells that were made before the one that cannot be made are given back. -/
theorem drafts_newCells (hbase : base.Exact τ) : ∀ {vs : List Value},
    (∀ c ∈ Value.handlesOfItems vs, c.session = s → base.isLive c.cell) →
    ∀ {h σ n}, τ ⊆ σ → Draft base h σ → Ends (newCells s vs) (w.put s h n)
      (Drafting w s base σ n (·.map Handle.cell) fun _ _ => True)
  | [], _, h, _, _, _, hd => ⟨h, rfl, hd, trivial⟩
  | v :: vs, hlive, h, σ, n, hsub, hd => by
    rw [newCells]
    refine (drafts_newCell hk hq hbase (fun c hc => hlive c (List.mem_append_left _ hc)) hsub hd).bind ?_
      fun _ _ he => he
    rintro c _ ⟨h₁, rfl, hd₁, hc⟩
    have hrest := drafts_newCells hbase (n := n + 1)
      (fun c hc => hlive c (List.mem_append_right _ hc)) (List.subset_cons_of_subset _ hsub) hd₁
    have hcell : c = ⟨s, c.cell⟩ := congrArg (Handle.mk · c.cell) hc.session
    rw [hcell]
    refine (Drafting.orRelease hk hrest).bind ?_ fun _ _ he => he
    rintro cs _ ⟨h₂, rfl, hd₂, -⟩
    exact ⟨h₂, rfl, hd₂, trivial⟩

end

end Embedding
