import Embedding.Proofs.Heap.Packages
import Embedding.Proofs.Heap.Quiet

/-!
# Variables

A variable is what a name with or without a sigil stands for. Its contents reach as far as cells hold
other cells, and they stay as long as those stay live and hold what they held.
-/

namespace Embedding.Heap

/-- The cell that a name with or without a sigil stands for. -/
def named? (h : Heap) (name : String) : Option CellId :=
  h.symbol? (Name.parseGlobal name).1 (Name.qualify (Name.parseGlobal name).2)

/-- The cells that a variable consists of: its own, and those that they hold. -/
inductive Comprises (h : Heap) (name : String) : CellId → Prop
  | own {c} : h.named? name = some c → h.Comprises name c
  | part {c x d} : h.Comprises name c → h.cell? c = some x → d ∈ x.content.children →
    h.Comprises name d

/-- The variable has the same contents in both heaps, at every depth, or it is in neither of them.
Places of iterations are left aside. -/
structure Stays (h h' : Heap) (name : String) : Prop where
  own : h'.named? name = h.named? name
  contents : ∀ c, h.Comprises name c → ∃ x x', h.cell? c = some x ∧ h'.cell? c = some x' ∧
    Turning c x.content x'.content ∧ x'.package = x.package

variable {base g h h' : Heap} {σ τ : List CellId} {c d : CellId} {slot : Slot} {name : String}

/-- A variable stays as it was if the cells that it comprises do, as far as they are left: what a
variable holds is held by live cells. -/
theorem Sound.stays (hbase : base.Sound σ) (hs : h.Sound τ) (hnamed : h.named? name = base.named? name)
    (hcells : ∀ c x', base.Comprises name c → c.index < base.cells.size → h.cell? c = some x' →
      ∃ x, base.cell? c = some x ∧ Turning c x.content x'.content ∧ x'.package = x.package) :
    base.Stays h name := by
  refine ⟨hnamed, fun c hc => ?_⟩
  -- along the way down, a cell is live in both heaps because a live cell holds it there
  have hsame {c : CellId} (hc : base.Comprises name c) (hlive : base.isLive c) (hlive' : h.isLive c) :
      ∃ x x', base.cell? c = some x ∧ h.cell? c = some x' ∧ Turning c x.content x'.content ∧
        x'.package = x.package := by
    obtain ⟨y, hy⟩ := exists_cell hlive
    obtain ⟨x', hx'⟩ := exists_cell hlive'
    obtain ⟨x, hx, hturning, hpackage⟩ := hcells c x' hc (lt_of_cell? hy) hx'
    exact ⟨x, x', hx, hx', hturning, hpackage⟩
  induction hc with
  | own hown =>
    obtain ⟨x, hx, -⟩ := hbase.named.sorts _ _ _ hown
    obtain ⟨x', hx', -⟩ := hs.named.sorts _ _ _ (hnamed.trans hown)
    exact hsame (.own hown) (isLive_of_cell? hx) (isLive_of_cell? hx')
  | part hc hx hchild ih =>
    obtain ⟨y, x', hy, hx', hturning, -⟩ := ih
    obtain rfl := Option.some.inj (hx.symm.trans hy)
    refine hsame (.part hc hx hchild) (hbase.isLive_child hx hchild) (hs.isLive_child hx' ?_)
    rwa [turning_children hturning]

theorem Firm.stays (hf : base.Firm Turning h) (hbase : base.Sound σ) (hs : h.Sound τ) (name : String) :
    base.Stays h name := by
  refine hbase.stays hs ?_ fun c x' _ => hf.cells c x'
  rw [named?, named?, symbol?, symbol?, hf.symbols]

theorem Stays.comprises (hst : g.Stays h name) (hc : h.Comprises name c) : g.Comprises name c := by
  induction hc with
  | own hown => exact .own (hst.own.symm.trans hown)
  | part _ hx hchild ih =>
    obtain ⟨y, x', hy, hx', hturning, -⟩ := hst.contents _ ih
    obtain rfl := Option.some.inj (hx.symm.trans hx')
    exact .part ih hy (by rwa [← turning_children hturning])

/-- Two heaps in which a variable stayed as it was in a third one agree about it. -/
theorem Stays.between (h₁ : g.Stays h name) (h₂ : g.Stays h' name) : h.Stays h' name where
  own := h₂.own.trans h₁.own.symm
  contents c hc := by
    obtain ⟨y, x, hy, hx, hturning, hpackage⟩ := h₁.contents c (h₁.comprises hc)
    obtain ⟨y', x', hy', hx', hturning', hpackage'⟩ := h₂.contents c (h₁.comprises hc)
    obtain rfl := Option.some.inj (hy.symm.trans hy')
    exact ⟨x, x', hx, hx', turning_trans (turning_symm hturning) hturning',
      hpackage'.trans hpackage.symm⟩

/-- The cells that the cell of a variable holds, such as the items of an array. -/
def contents? (h : Heap) (name : String) : Option (List CellId) :=
  ((h.named? name).bind h.cell?).map (·.content.children)

theorem Stays.contents? (hst : h.Stays h' name) : h'.contents? name = h.contents? name := by
  unfold Heap.contents?
  rw [hst.own]
  cases hown : h.named? name with
  | none => rfl
  | some c =>
    obtain ⟨x, x', hx, hx', hturning, -⟩ := hst.contents c (.own hown)
    simp only [Option.bind_some, hx, hx', Option.map_some, turning_children hturning]

/-! ## Sorts of cells -/

/-- The cell is live and of the sort of a table. -/
def HasSort (h : Heap) (slot : Slot) (c : CellId) : Prop :=
  ∃ x, h.cell? c = some x ∧ x.content.slot? = some slot

theorem Sound.hasSort (hs : h.Sound σ) (hc : h.symbol? slot name = some c) : h.HasSort slot c :=
  hs.named.sorts slot name c hc

theorem Sound.isLive_symbol (hs : h.Sound σ) (hc : h.symbol? slot name = some c) : h.isLive c := by
  obtain ⟨x, hx, -⟩ := hs.hasSort hc
  exact isLive_of_cell? hx

theorem HasSort.evolves (hc : h.HasSort slot c) (hev : h.Evolves h') (hlive : h'.isLive c) :
    h'.HasSort slot c := by
  obtain ⟨x, hx, hslot⟩ := hc
  obtain ⟨x', hx'⟩ := exists_cell hlive
  obtain ⟨y, hy, hslot'⟩ := hev.sorts c x' hx' (lt_of_cell? hx)
  obtain rfl := Option.some.inj (hx.symm.trans hy)
  exact ⟨x', hx', hslot'.trans hslot⟩

theorem HasSort.items (hc : h.HasSort .array c) : ∃ items, h.items c = .ok items := by
  obtain ⟨x, hx, hslot⟩ := hc
  exact items_of_slot? hx hslot

theorem HasSort.hash (hc : h.HasSort .hash c) : ∃ entries cursor, h.hash c = .ok (entries, cursor) := by
  obtain ⟨x, hx, hslot⟩ := hc
  cases hcontent : x.content with
  | hash entries cursor => exact ⟨entries, cursor, hash_eq_ok_iff.2 ⟨x, hx, hcontent⟩⟩
  | _ => rw [hcontent] at hslot; cases hslot

theorem HasSort.run_writing {x : HeapM Unit} (hc : h.HasSort slot c) (hslot : slot ≠ .scalar)
    (hs : h.Sound σ) (hq : h.Quiet) (hgives : Gives x h [] fun _ => [])
    (hfirm : Preserves (h.Firm (Besides c)) x) :
    ∃ h', x.run h = (.ok (), h') ∧ h.Evolves h' ∧ h'.Quiet := by
  obtain ⟨y, hy, hslot'⟩ := hc
  obtain ⟨_, h', hrun, hev, hs'⟩ := hgives σ hs
  have hf := hfirm h (firm_refl (fun _ _ _ => rfl) h)
  rw [hrun] at hf
  exact ⟨h', hrun, hev, hq.writes hs hs' hy (fun e => hslot (Option.some.inj (hslot'.symm.trans e))) hf⟩

/-! ## Writing variables -/

/-- No cell was written but that of a variable, which may be new. -/
structure Assigned (h h' : Heap) (slot : Slot) (qualified : String) (c : CellId) : Prop where
  size : h.cells.size ≤ h'.cells.size
  named : h'.symbol? slot qualified = some c
  own : h.symbol? slot qualified = some c ∨
    h.symbol? slot qualified = none ∧ h.cells.size ≤ c.index
  others : ∀ slot' qualified', ¬ (slot' = slot ∧ qualified' = qualified) →
    h'.symbol? slot' qualified' = h.symbol? slot' qualified'
  cells : ∀ d x', d.index < h.cells.size → h'.cell? d = some x' →
    ∃ x, h.cell? d = some x ∧ (d ≠ c → x'.content = x.content) ∧ x'.package = x.package

section
variable {h₁ : Heap} {qualified : String} {same : Sameness}

theorem assigned_refl (hc : h.symbol? slot qualified = some c) : h.Assigned h slot qualified c where
  size := Nat.le_refl _
  named := hc
  own := .inl hc
  others _ _ _ := rfl
  cells _ x _ hx := ⟨x, hx, fun _ => rfl, rfl⟩

theorem assigned_declare (hnew : h.symbol? slot qualified = none) (content : Content) :
    h.Assigned (h.declare slot qualified content) slot qualified (h.allocate content).1 where
  size := (grows_allocate h content).size
  named := (symbol?_define ..).trans (if_pos ⟨rfl, rfl⟩)
  own := .inr ⟨hnew, Nat.le_refl _⟩
  others slot' qualified' hne := by
    rw [declare, symbol?_define, if_neg fun e => hne ⟨e.1.symm, e.2.symm⟩]
    rfl
  cells d x' hd hx' := by
    obtain ⟨x, hx, hcontent, hpackage⟩ := (grows_allocate h content).firm.cells d x' hd hx'
    exact ⟨x, hx, fun _ => hcontent, hpackage⟩

theorem Assigned.firm (ha : h.Assigned h₁ slot qualified c) (hf : h₁.Firm same h')
    (hsame : ∀ d x y, same d x y → d ≠ c → y = x) : h.Assigned h' slot qualified c where
  size := Nat.le_trans ha.size hf.size
  named := by rw [symbol?, hf.symbols]; exact ha.named
  own := ha.own
  others slot' qualified' hne := by
    rw [symbol?, hf.symbols]
    exact ha.others slot' qualified' hne
  cells d x'' hd hx'' := by
    obtain ⟨x', hx', hs', hp'⟩ := hf.cells d x'' (Nat.lt_of_lt_of_le hd ha.size) hx''
    obtain ⟨x, hx, hcontent, hp⟩ := ha.cells d x' hd hx'
    exact ⟨x, hx, fun hne => (hsame d _ _ hs' hne).trans (hcontent hne), hp'.trans hp⟩

theorem Assigned.besides (ha : h.Assigned h₁ slot qualified c) (hf : h₁.Firm (Besides c) h') :
    h.Assigned h' slot qualified c := ha.firm hf fun _ _ _ => id

theorem Assigned.unchanged (ha : h.Assigned h₁ slot qualified c) (hf : h₁.Firm Unchanged h') :
    h.Assigned h' slot qualified c := ha.firm hf fun _ _ _ hs _ => hs

theorem Firm.assigned (hf : h.Firm Unchanged h₁) (ha : h₁.Assigned h' slot qualified c) :
    h.Assigned h' slot qualified c where
  size := Nat.le_trans hf.size ha.size
  named := ha.named
  own := by
    rw [symbol?, ← hf.symbols]
    exact ha.own.imp_right fun hnew => ⟨hnew.1, Nat.le_trans hf.size hnew.2⟩
  others slot' qualified' hne := by
    rw [ha.others slot' qualified' hne, symbol?, hf.symbols]
    rfl
  cells d x'' hd hx'' := by
    obtain ⟨x', hx', hcontent', hp'⟩ := ha.cells d x'' (Nat.lt_of_lt_of_le hd hf.size) hx''
    obtain ⟨x, hx, hcontent, hp⟩ := hf.cells d x' hd hx'
    exact ⟨x, hx, fun hne => (hcontent' hne).trans hcontent, hp'.trans hp⟩

theorem Assigned.stays (ha : h.Assigned h' slot qualified c) (hs : h.Sound σ) (hs' : h'.Sound τ)
    (hother : ¬ ((Name.parseGlobal name).1 = slot ∧
      Name.qualify (Name.parseGlobal name).2 = qualified)) (hnot : ¬ h.Comprises name c) :
    h.Stays h' name := by
  refine hs.stays hs' (ha.others _ _ hother) fun d x' hd hlt hx' => ?_
  obtain ⟨x, hx, hcontent, hpackage⟩ := ha.cells d x' hlt hx'
  have hne : d ≠ c := fun e => hnot (e ▸ hd)
  exact ⟨x, hx, .inl (hcontent hne), hpackage⟩

end

/-! ## Making variables -/

theorem errorCell_declare {content : Content} (hc : h.errorCell = .ok c)
    (hnew : h.symbol? slot name = none) : (h.declare slot name content).errorCell = .ok c := by
  rw [errorCell_eq_ok_iff] at hc ⊢
  rw [declare, symbol?_define, if_neg]
  · exact hc
  · rintro ⟨rfl, rfl⟩
    cases hnew.symm.trans hc

theorem Quiet.declare {content : Content} (hq : h.Quiet) (hnew : h.symbol? slot name = none) :
    (h.declare slot name content).Quiet := by
  obtain ⟨c, hc, hfalse⟩ := hq
  refine ⟨c, errorCell_declare hc hnew, ?_⟩
  unfold isTrue at hfalse ⊢
  cases hs : h.scalar c with
  | error e => rw [hs] at hfalse; cases hfalse
  | ok s =>
    have hs' : (h.declare slot name content).scalar c = .ok s := (grows_allocate h content).scalar_ok hs
    rwa [hs', ← hs]

theorem run_global_create (hs : h.Sound σ) (hslot : slot ≠ .code) (name : String) : ∃ c h',
    (global slot name true).run h = (.ok (some c), h') ∧ h'.Sound (c :: σ) ∧ h.Evolves h' ∧
      (h.Quiet → h'.Quiet) ∧ h.Assigned h' slot (Name.qualify name) c := by
  obtain ⟨o, h', hrun, hev, hs', -, hsome⟩ := global_spec hs slot name true
  obtain ⟨c, rfl⟩ := Option.isSome_iff_exists.1 (hsome rfl hslot)
  refine ⟨c, h', hrun, hs', hev, ?_⟩
  cases hc : h.symbol? slot (Name.qualify name) with
  | some d =>
    obtain ⟨x, hx, -⟩ := hs.named.sorts _ _ _ hc
    have hg := retain_grows h d
    rw [run_global_old true hc, run_bind_ok (run_retain hx)] at hrun
    rw [run_retain hx] at hg
    cases hrun
    exact ⟨fun hq => hq.grows hg, (assigned_refl hc).unchanged hg.firm⟩
  | none =>
    obtain ⟨content, hf⟩ : ∃ content, Content.fresh? slot = some content := by
      cases slot <;> first | exact ⟨_, rfl⟩ | exact absurd rfl hslot
    have hcell : (h.declare slot (Name.qualify name) content).cell? (h.allocate content).1 =
        some ⟨1, none, content⟩ := (cell?_allocate ..).trans (if_pos rfl)
    have hg := retain_grows (h.declare slot (Name.qualify name) content) (h.allocate content).1
    rw [run_global_new hc hf, run_bind_ok (run_retain hcell)] at hrun
    rw [run_retain hcell] at hg
    cases hrun
    exact ⟨fun hq => (hq.declare hc).grows hg, (assigned_declare hc content).unchanged hg.firm⟩

end Embedding.Heap
