import Embedding.Proofs.Heap.Planting
import Embedding.Proofs.Heap.Visits

/-!
# Drafts

A value becomes cells piece by piece, and any piece may turn out to have no representation. What has
been made by then is a draft: new cells that hold cells from before and one another, without a cycle.
When the stakes in a draft are given back, nothing of it is left, and the cells from before have the
counts that they had.
-/

namespace Embedding.Heap

/-- The scalar refers to no cell from the one number up to the other. -/
def RefersOutside (m n : Nat) (s : Embedding.Scalar) : Prop :=
  ∀ t ∈ s.ref, t.index < m ∨ n ≤ t.index

/-- What a new cell may hold. Scalars refer to cells from before and to containers, and containers hold
new scalars that refer to cells from before and to newer containers. -/
def Fits (base h : Heap) (c : CellId) : Content → Prop
  | .scalar s => ∀ t ∈ s.ref, t.index < base.cells.size ∨ ∀ u, h.scalar t ≠ .ok u
  | content => ∀ d ∈ content.children, base.cells.size ≤ d.index ∧
      ∃ s, h.scalar d = .ok s ∧ RefersOutside base.cells.size (c.index + 1) s

/-- The heap has the cells of `base` with what they held there, and new cells besides. -/
structure Draft (base h : Heap) (σ : List CellId) : Prop where
  sound : h.Sound σ
  tended : Tended [] base h
  loaded : h.loaded = base.loaded
  fits : ∀ c x, base.cells.size ≤ c.index → h.cell? c = some x → Fits base h c x.content

section
variable {base h h' : Heap} {σ τ : List CellId} {a c d : CellId} {x : Cell}
  {s u : Embedding.Scalar} {content : Content}

/-! ## What cells hold -/

theorem fits_container (hnot : ∀ s, content ≠ .scalar s) : Fits base h c content ↔
    ∀ d ∈ content.children, base.cells.size ≤ d.index ∧
      ∃ s, h.scalar d = .ok s ∧ RefersOutside base.cells.size (c.index + 1) s := by
  cases content with
  | scalar s => exact absurd rfl (hnot s)
  | _ => rfl

theorem not_scalar (hx : h.cell? c = some x) (hnot : ∀ s, x.content ≠ .scalar s) (u : Embedding.Scalar) :
    h.scalar c ≠ .ok u := fun hu => hnot u (content_of_scalar hu hx)

theorem Fits.congr (hf : Fits base h c content)
    (hsame : ∀ t ∈ content.children, ∀ u, h'.scalar t = .ok u ↔ h.scalar t = .ok u) :
    Fits base h' c content := by
  by_cases hscalar : ∃ s, content = .scalar s
  · obtain ⟨s, rfl⟩ := hscalar
    intro t ht
    refine (hf t ht).imp_right fun hnot u hu => hnot u ?_
    exact (hsame t (Option.mem_toList.2 ht) u).1 hu
  · have hnot : ∀ s, content ≠ .scalar s := fun s hs => hscalar ⟨s, hs⟩
    rw [fits_container hnot] at hf ⊢
    intro d hd
    obtain ⟨hnew, s, hs, hout⟩ := hf d hd
    exact ⟨hnew, s, (hsame d hd s).2 hs, hout⟩

theorem Grows.scalar_iff (hg : h.Grows h') (hc : h.isLive c) :
    h'.scalar c = .ok u ↔ h.scalar c = .ok u := by
  refine ⟨fun hu => ?_, hg.scalar_ok⟩
  obtain ⟨x, hx⟩ := exists_cell hc
  obtain ⟨n, hn⟩ := hg.cells c x hx
  have hcontent := content_of_scalar hu hn
  exact scalar_eq_ok_iff.2 ⟨x, hx, hcontent⟩

theorem Shrinks.scalar_iff (hs : h.Shrinks h') (hc : h'.isLive c) :
    h'.scalar c = .ok u ↔ h.scalar c = .ok u := by
  obtain ⟨x', hx'⟩ := exists_cell hc
  obtain ⟨x, hx, hcontent, -⟩ := hs.cells c x' hx'
  constructor
  · intro hu
    exact scalar_eq_ok_iff.2 ⟨x, hx, hcontent.symm.trans (content_of_scalar hu hx')⟩
  · intro hu
    exact scalar_eq_ok_iff.2 ⟨x', hx', hcontent.trans (content_of_scalar hu hx)⟩

/-! ## Steps -/

theorem draft_refl (hs : h.Sound σ) : Draft h h σ :=
  ⟨hs, tended_refl hs.exact [], rfl, fun _ _ hc hx => absurd (lt_of_cell? hx) (Nat.not_lt.2 hc)⟩

theorem Draft.perm (hd : Draft base h σ) (hp : σ.Perm τ) : Draft base h τ :=
  { hd with sound := hd.sound.perm hp }

theorem Draft.grows (hd : Draft base h σ) (hg : h.Grows h') (hs : h'.Sound τ)
    (hloaded : h'.loaded = h.loaded)
    (hnew : ∀ c x, h.cells.size ≤ c.index → h'.cell? c = some x → Fits base h' c x.content) :
    Draft base h' τ where
  sound := hs
  tended := hd.tended.goesOn (hd.tended.firm.unchanged hg.firm) fun _ => hg.isLive
  loaded := hloaded.trans hd.loaded
  fits c x' hc hx' := by
    rcases Nat.lt_or_ge c.index h.cells.size with hlt | hge
    · obtain ⟨x, hx⟩ := hg.old c x' hx' hlt
      obtain ⟨n, hn⟩ := hg.cells c x hx
      obtain rfl := Option.some.inj (hx'.symm.trans hn)
      exact (hd.fits c x hc hx).congr fun t ht _ => hg.scalar_iff (hd.sound.isLive_child hx ht)
    · exact hnew c x' hge hx'

theorem Draft.retain (hd : Draft base h σ) (hc : h.isLive c) :
    ∃ h', (retain c).run h = (.ok (), h') ∧ Draft base h' (c :: σ) ∧ h.Grows h' ∧
      h'.cells.size = h.cells.size := by
  obtain ⟨x, hx⟩ := exists_cell hc
  have hg := grows_recount hx (x.refcount + 1)
  refine ⟨_, run_retain hx, hd.grows hg (hd.sound.retain hx) rfl fun d y hge hy => ?_, hg, by simp [setCell]⟩
  have hlt := lt_of_cell? hy
  rw [show (h.setCell c _).cells.size = h.cells.size by simp [setCell]] at hlt
  exact absurd hlt (Nat.not_lt.2 hge)

theorem Draft.release (hd : Draft base h (c :: σ)) :
    ∃ h', (release c).run h = (.ok (), h') ∧ Draft base h' σ ∧ h.Shrinks h' := by
  obtain ⟨_, h', hrun, -, hs⟩ := gives_release h c σ hd.sound
  have ht := hd.tended.release hd.sound.exact
  have hshrinks := release_shrinks h c
  rw [hrun] at ht hshrinks
  refine ⟨h', hrun, ⟨hs, ht, hshrinks.loaded.trans hd.loaded, fun d x' hnew hx' => ?_⟩, hshrinks⟩
  obtain ⟨x, hx, hcontent, -⟩ := hshrinks.cells d x' hx'
  have hfits := hd.fits d x hnew hx
  rw [← hcontent] at hfits
  exact hfits.congr fun t htmem _ => hshrinks.scalar_iff (hs.isLive_child hx' htmem)

theorem Draft.allocate (hd : Draft base h (content.children ++ σ))
    (hfits : Fits base h ⟨h.cells.size⟩ content) :
    Draft base (h.allocate content).2 (⟨h.cells.size⟩ :: σ) := by
  have hg := grows_allocate h content
  refine hd.grows hg hd.sound.allocate rfl fun c x hge hx => ?_
  rw [cell?_allocate] at hx
  split at hx
  · next heq =>
    cases hx
    rw [heq]
    exact hfits.congr fun t ht _ => hg.scalar_iff (hd.sound.isLive (List.mem_append_left σ ht))
  · exact absurd (lt_of_cell? hx) (Nat.not_lt.2 hge)

theorem Draft.setContent (content : Content) (taken given : List CellId)
    (hd : Draft base h (taken ++ σ)) (ha : base.cells.size ≤ a.index) (hx : h.cell? a = some x)
    (hslot : content.slot? = x.content.slot?) (hnot : ∀ s, content ≠ .scalar s)
    (hnot' : ∀ s, x.content ≠ .scalar s) (hfits : Fits base h a content)
    (hp : (content.children ++ given).Perm (x.content.children ++ taken)) :
    ∃ h', (setContent a content).run h = (.ok (), h') ∧ Draft base h' (given ++ σ) ∧
      h.Firm (Besides a) h' ∧ h'.cell? a = some { x with content } := by
  obtain ⟨_, h', hrun, -, hs⟩ := gives_setContent content taken given hx hslot hp σ hd.sound
  have hheap : h' = h.setCell a (some { x with content }) := by
    rw [Heap.setContent, run_bind_ok (by rw [run_query, cell_ok hx])] at hrun
    exact (congrArg Prod.snd hrun).symm
  have hfirm : h.Firm (Besides a) h' := by
    rw [hheap]
    exact firm_setCell hx content x.refcount (fun _ _ _ _ => rfl) fun hne => absurd rfl hne
  have hcell (c : CellId) : h'.cell? c = if a = c then some { x with content } else h.cell? c := by
    rw [hheap, cell?_setCell]
    simp only [lt_of_cell? hx, and_true]
  have hscalar (t : CellId) (u : Embedding.Scalar) : h'.scalar t = .ok u ↔ h.scalar t = .ok u := by
    by_cases ht : a = t
    · subst ht
      refine ⟨fun hu => absurd hu ?_, fun hu => absurd hu (not_scalar hx hnot' u)⟩
      exact not_scalar ((hcell a).trans (if_pos rfl)) hnot u
    · rw [scalar_eq_ok_iff, scalar_eq_ok_iff, hcell, if_neg ht]
  refine ⟨h', hrun, ⟨hs, hd.tended.goesOn (hd.tended.firm.besides hfirm ha) fun c hc => ?_, ?_,
    fun c y hc hy => ?_⟩, hfirm, (hcell a).trans (if_pos rfl)⟩
  · obtain ⟨y, hy⟩ := exists_cell hc
    by_cases hac : a = c
    · exact isLive_of_cell? ((hcell c).trans (if_pos hac))
    · exact isLive_of_cell? ((hcell c).trans ((if_neg hac).trans hy))
  · rw [hheap]
    exact hd.loaded
  · rw [hcell] at hy
    split at hy
    · next hac =>
      cases hy
      rw [← hac]
      exact hfits.congr fun t _ => hscalar t
    · exact (hd.fits c y hc hy).congr fun t _ => hscalar t

/-! ## Making cells -/

theorem Draft.newScalar (hd : Draft base h σ) (hs : s.ref = none) :
    Draft base (h.allocate (.scalar s)).2 (⟨h.cells.size⟩ :: σ) := by
  have hchildren : (Content.scalar s).children = [] := by rw [Content.children, hs]; rfl
  refine Draft.allocate (by rwa [hchildren]) fun t ht => ?_
  rw [hs] at ht
  cases ht

theorem Draft.newContainer (hd : Draft base h σ) (hchildren : content.children = [])
    (hnot : ∀ s, content ≠ .scalar s) :
    Draft base (h.allocate content).2 (⟨h.cells.size⟩ :: σ) := by
  refine Draft.allocate (by rwa [hchildren]) ((fits_container hnot).2 fun d hmem => ?_)
  rw [hchildren] at hmem
  cases hmem

theorem Draft.newRef (hd : Draft base h σ) (hc : h.isLive c)
    (htarget : c.index < base.cells.size ∨ ∀ u, h.scalar c ≠ .ok u) :
    ∃ h', (newRef c).run h = (.ok ⟨h.cells.size⟩, h') ∧ Draft base h' (⟨h.cells.size⟩ :: σ) ∧
      h.Grows h' ∧ h'.scalar ⟨h.cells.size⟩ = .ok (.ofRef c) := by
  obtain ⟨h₁, hretain, hd₁, hg₁, hsize⟩ := hd.retain hc
  have hg := grows_allocate h₁ (.scalar (.ofRef c))
  have hfits : Fits base h₁ ⟨h₁.cells.size⟩ (.scalar (.ofRef c)) := by
    intro t ht
    obtain rfl : t = c := by simpa [Scalar.ofRef, eq_comm] using ht
    exact htarget.imp_right fun hnot u hu => hnot u ((hg₁.scalar_iff hc).1 hu)
  have hd₂ : Draft base (h₁.allocate (.scalar (.ofRef c))).2 (⟨h₁.cells.size⟩ :: σ) :=
    Draft.allocate hd₁ hfits
  refine ⟨(h₁.allocate (.scalar (.ofRef c))).2, ?_, hsize ▸ hd₂, hg₁.trans hg, ?_⟩
  · rw [Heap.newRef, run_bind_ok hretain, ← hsize]
    rfl
  · rw [← hsize]
    exact scalar_allocate h₁ _

theorem Draft.takeValue (hd : Draft base h σ) (hc : h.scalar c = .ok s) :
    ∃ h', (takeValue c).run h = (.ok s, h') ∧ Draft base h' (s.ref.toList ++ σ) ∧ h.Grows h' ∧
      h'.cells.size = h.cells.size := by
  obtain ⟨x, hx, hcontent⟩ := scalar_eq_ok_iff.1 hc
  rw [takeValue_eq, run_bind_ok (by rw [run_query, cell_ok hx]), hcontent, contentValue]
  cases ht : s.ref with
  | none => exact ⟨h, rfl, hd, .refl h, rfl⟩
  | some t =>
    have hlive : h.isLive t := by
      refine hd.sound.isLive_child hx ?_
      rw [hcontent, Content.children, ht]
      exact List.mem_singleton_self t
    obtain ⟨h', hretain, hd', hg, hsize⟩ := hd.retain hlive
    exact ⟨h', by rw [run_bind_ok hretain]; rfl, hd', hg, hsize⟩

theorem Draft.copy (hd : Draft base h σ) (hnew : base.cells.size ≤ c.index) (hc : h.scalar c = .ok s) :
    ∃ h', (copy c).run h = (.ok ⟨h.cells.size⟩, h') ∧ Draft base h' (⟨h.cells.size⟩ :: σ) ∧
      h.Grows h' ∧ h'.scalar ⟨h.cells.size⟩ = .ok s := by
  obtain ⟨x, hx, hcontent⟩ := scalar_eq_ok_iff.1 hc
  obtain ⟨h₁, htake, hd₁, hg₁, hsize⟩ := hd.takeValue hc
  have hfits : Fits base h₁ ⟨h₁.cells.size⟩ (.scalar s) := by
    have hfits := hd.fits c x hnew hx
    rw [hcontent] at hfits
    intro t ht
    have hlive : h.isLive t := hd.sound.isLive_child hx (by rw [hcontent]; exact Option.mem_toList.2 ht)
    exact (hfits t ht).imp_right fun hnot u hu => hnot u ((hg₁.scalar_iff hlive).1 hu)
  have hd₂ : Draft base (h₁.allocate (.scalar s)).2 (⟨h₁.cells.size⟩ :: σ) := Draft.allocate hd₁ hfits
  rw [← hsize]
  exact ⟨_, by rw [Heap.copy, run_bind_ok htake]; rfl, hd₂, hg₁.trans (grows_allocate h₁ _),
    scalar_allocate h₁ s⟩

/-! ## Filling containers -/

theorem Fits.add (hf : Fits base h a content) (hnot : ∀ s, content ≠ .scalar s) {content' : Content}
    (hnot' : ∀ s, content' ≠ .scalar s) (hd : base.cells.size ≤ d.index) (hs : h.scalar d = .ok s)
    (hout : RefersOutside base.cells.size (a.index + 1) s)
    (hmem : ∀ e ∈ content'.children, e = d ∨ e ∈ content.children) : Fits base h a content' := by
  rw [fits_container hnot] at hf
  refine (fits_container hnot').2 fun e he => ?_
  rcases hmem e he with rfl | he
  · exact ⟨hd, s, hs, hout⟩
  · exact hf e he

theorem Draft.arrayStore {items : Array CellId} (hd : Draft base h σ) (ha : base.cells.size ≤ a.index)
    (hitems : h.items a = .ok items) (hc : base.cells.size ≤ c.index) (hs : h.scalar c = .ok s)
    (hout : RefersOutside base.cells.size (a.index + 1) s) :
    ∃ h', (arrayStore a items.size c).run h = (.ok (), h') ∧ Draft base h' σ ∧
      h.Firm (Besides a) h' ∧ h'.items a = .ok (items.push ⟨h.cells.size⟩) := by
  obtain ⟨h₁, hcopy, hd₁, hg, hs₁⟩ := hd.copy hc hs
  have hitems₁ := hg.items_ok hitems
  obtain ⟨x, hx, hcontent⟩ := items_eq_ok_iff.1 hitems₁
  have hnot : ∀ s, x.content ≠ .scalar s := fun s => by rw [hcontent]; exact Content.noConfusion
  have hsize : base.cells.size ≤ h.cells.size := hd.tended.firm.size
  obtain ⟨h₂, hset, hd₂, hf, hx₂⟩ := Draft.setContent (.array (items.push ⟨h.cells.size⟩))
    [⟨h.cells.size⟩] [] hd₁ ha hx (by rw [hcontent]; rfl)
    (fun _ => Content.noConfusion) hnot
    ((hd₁.fits a x ha hx).add hnot (fun _ => Content.noConfusion) hsize hs₁ hout fun e he => by
      rw [hcontent]
      simpa [Content.children, or_comm] using he)
    (by rw [hcontent]; simp [Content.children])
  refine ⟨h₂, (run_arrayStore_end hitems hcopy hitems₁).trans hset, hd₂, ?_,
    items_eq_ok_iff.2 ⟨_, hx₂, rfl⟩⟩
  exact hg.firm.trans hf fun _ _ _ _ _ h₁ h₂ hne =>
    (h₂ hne).trans h₁

theorem Draft.hashStore {entries : Dict CellId} {cursor : Nat} (hd : Draft base h σ)
    (ha : base.cells.size ≤ a.index) (hhash : h.hash a = .ok (entries, cursor)) (key : String)
    (hc : base.cells.size ≤ c.index) (hs : h.scalar c = .ok s)
    (hout : RefersOutside base.cells.size (a.index + 1) s) (hmem : a ∈ σ) :
    ∃ h', (hashStore a key c).run h = (.ok (), h') ∧ Draft base h' σ ∧
      h.Firm (Besides a) h' ∧ h'.hash a = .ok (entries.insert key ⟨h.cells.size⟩, cursor) := by
  obtain ⟨h₁, hcopy, hd₁, hg, hs₁⟩ := hd.copy hc hs
  have hhash₁ := hg.hash_ok hhash
  obtain ⟨x, hx, hcontent⟩ := hash_eq_ok_iff.1 hhash₁
  have hnot : ∀ s, x.content ≠ .scalar s := fun s => by rw [hcontent]; exact Content.noConfusion
  have hsize : base.cells.size ≤ h.cells.size := hd.tended.firm.size
  obtain ⟨h₂, hset, hd₂, hf, hx₂⟩ := Draft.setContent
    (.hash (entries.insert key ⟨h.cells.size⟩) cursor) [⟨h.cells.size⟩] (entries.get? key).toList
    hd₁ ha hx (by rw [hcontent]; rfl) (fun _ => Content.noConfusion) hnot
    ((hd₁.fits a x ha hx).add hnot (fun _ => Content.noConfusion) hsize hs₁ hout fun e he => by
      have hvalues := (values_insert_perm entries key ⟨h.cells.size⟩).mem_iff.1
        (List.mem_append_left _ he)
      rw [hcontent]
      simpa [Content.children, or_comm] using hvalues)
    (by rw [hcontent]; exact values_insert_perm entries key _)
  have hfirm : h.Firm (Besides a) h₂ :=
    hg.firm.trans hf fun _ _ _ _ _ h₁ h₂ hne => (h₂ hne).trans h₁
  have hrun : (Heap.hashStore a key c).run h = (releaseOption (entries.get? key)).run h₂ := by
    rw [hashStore_eq, run_bind_ok (by rw [run_query, hhash]), run_bind_ok hcopy,
      run_bind_ok (by rw [run_query, hhash₁])]
    exact run_bind_ok hset
  have hhash₂ : h₂.hash a = .ok (entries.insert key ⟨h.cells.size⟩, cursor) :=
    hash_eq_ok_iff.2 ⟨_, hx₂, rfl⟩
  rw [hrun]
  cases hkey : entries.get? key with
  | none =>
    rw [hkey] at hd₂
    exact ⟨h₂, rfl, hd₂, hfirm, hhash₂⟩
  | some old =>
    -- the item that was stored under the key goes
    rw [hkey] at hd₂
    obtain ⟨h₃, hrelease, hd₃, hshrinks⟩ := Draft.release hd₂
    refine ⟨h₃, hrelease, hd₃, hfirm.unchanged hshrinks.firm, ?_⟩
    exact hshrinks.hash_ok hhash₂ (hd₃.sound.isLive hmem)

/-! ## Cells from before -/

theorem Draft.isLive (hd : Draft base h σ) (hbase : base.Exact τ) (hsub : τ ⊆ σ) (hc : base.isLive c) :
    h.isLive c := by
  refine (tended_refl hbase []).isLive hbase (fun d hlive => ?_) hd.tended hd.sound.exact hsub hc
  obtain ⟨x, hx⟩ := exists_cell hlive
  exact lt_of_cell? hx

theorem Draft.isLive_target {t : CellId} (hd : Draft base h σ) (hbase : base.Exact τ)
    (hc : c.index < base.cells.size) (ht : h.target c = .ok t) : base.isLive t := by
  obtain ⟨s, hs, href⟩ := scalar_of_target ht
  obtain ⟨x, hx, hcontent⟩ := scalar_eq_ok_iff.1 hs
  obtain ⟨y, hy, hsame, -⟩ := hd.tended.firm.cells c x hc hx
  refine hbase.isLive_child hy ?_
  rw [← turning_children hsame.turning, hcontent, Content.children, href]
  exact List.mem_singleton_self t

theorem Draft.quiet (hd : Draft base h σ) (hq : base.Quiet) : h.Quiet :=
  hd.tended.firm.quiet hq hd.sound fun _ _ y _ hsame => turning_scalar y hsame.turning

/-! ## The end -/

section
variable (hd : Draft base h σ) (hbase : base.Exact σ)
include hd hbase

theorem Draft.holder (hnew : base.cells.size ≤ c.index) (hc : h.isLive c) :
    ∃ d x, base.cells.size ≤ d.index ∧ h.cell? d = some x ∧ c ∈ x.content.children := by
  have hold (hc : base.isLive c) : False := by
    obtain ⟨x, hx⟩ := exists_cell hc
    exact Nat.not_lt.2 hnew (lt_of_cell? hx)
  rcases hd.sound.exact.holder hc with hmem | hmem | ⟨d, x, hx, hmem⟩
  · exact (hold (hbase.held c (List.mem_append_right _ hmem))).elim
  · rw [hd.tended.firm.symbols] at hmem
    exact (hold (hbase.held c (List.mem_append_left σ (mem_places_iff.2 (.inr hmem))))).elim
  · refine ⟨d, x, Nat.le_of_not_lt fun hlt => hold ?_, hx, hmem⟩
    obtain ⟨y, hy, hsame, -⟩ := hd.tended.firm.cells d x hlt hx
    rw [turning_children hsame.turning] at hmem
    exact hbase.isLive_child hy hmem

theorem Draft.container (hnew : base.cells.size ≤ c.index) (hs : h.scalar c = .ok s) :
    ∃ a x, base.cells.size ≤ a.index ∧ h.cell? a = some x ∧ (∀ u, x.content ≠ .scalar u) ∧
      RefersOutside base.cells.size (a.index + 1) s := by
  obtain ⟨y, hy, -⟩ := scalar_eq_ok_iff.1 hs
  obtain ⟨a, x, ha, hx, hmem⟩ := hd.holder hbase hnew (isLive_of_cell? hy)
  have hfits := hd.fits a x ha hx
  have hnot : ∀ u, x.content ≠ .scalar u := fun u hu => by
    rw [hu] at hfits hmem
    rcases hfits c (Option.mem_toList.1 hmem) with hlt | hnot
    · exact Nat.not_lt.2 hnew hlt
    · exact hnot s hs
  obtain ⟨-, s', hs', hout⟩ := (fits_container hnot).1 hfits c hmem
  obtain rfl := Except.ok.inj (hs.symm.trans hs')
  exact ⟨a, x, ha, hx, hnot, hout⟩

/-- There is no new container: it would be held by a scalar in an older one. -/
theorem Draft.no_container (hnew : base.cells.size ≤ a.index) (hx : h.cell? a = some x) :
    ∃ s, x.content = .scalar s := by
  induction hn : a.index using Nat.strongRecOn generalizing a x with
  | ind n ih =>
    subst hn
    refine Classical.byContradiction fun hnone => ?_
    have hnot : ∀ s, x.content ≠ .scalar s := fun s hs => hnone ⟨s, hs⟩
    obtain ⟨d, y, hd', hy, hmem⟩ := hd.holder hbase hnew (isLive_of_cell? hx)
    by_cases hscalar : ∃ s, y.content = .scalar s
    · obtain ⟨s, hs⟩ := hscalar
      obtain ⟨b, z, hb, hz, hnotz, hout⟩ := hd.container hbase hd' (scalar_eq_ok_iff.2 ⟨y, hy, hs⟩)
      rw [hs] at hmem
      rcases hout a (Option.mem_toList.1 hmem) with hlt | hlt
      · exact Nat.not_lt.2 hnew hlt
      · obtain ⟨u, hu⟩ := ih b.index hlt hb hz rfl
        exact hnotz u hu
    · have hfits := (fits_container fun s hs => hscalar ⟨s, hs⟩).1 (hd.fits d y hd' hy)
      obtain ⟨-, s, hs, -⟩ := hfits a hmem
      exact not_scalar hx hnot s hs

/-- When no stakes in new cells are left, there are no new cells. -/
theorem Draft.lt_size (hc : h.isLive c) : c.index < base.cells.size := by
  refine Nat.lt_of_not_le fun hnew => ?_
  obtain ⟨x, hx⟩ := exists_cell hc
  obtain ⟨s, hs⟩ := hd.no_container hbase hnew hx
  obtain ⟨a, y, ha, hy, hnot, -⟩ := hd.container hbase hnew (scalar_eq_ok_iff.2 ⟨x, hx, hs⟩)
  obtain ⟨u, hu⟩ := hd.no_container hbase ha hy
  exact hnot u hu

/-- When no stakes in new cells are left, everything is as it was before. -/
theorem Draft.cell?_eq (c : CellId) : h.cell? c = base.cell? c := by
  have hold : ∀ d, base.isLive d → d.index < base.cells.size := fun d hd => by
    obtain ⟨x, hx⟩ := exists_cell hd
    exact lt_of_cell? hx
  have hspares := (tended_refl hbase []).spares hbase hold hd.tended hd.sound.exact
    fun _ => hd.lt_size hbase
  exact hspares.outside c List.not_mem_nil

end

end

end Embedding.Heap
