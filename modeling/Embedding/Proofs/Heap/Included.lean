import Embedding.Proofs.Heap.Bonds
import Embedding.Proofs.Heap.Lists
import Embedding.Proofs.Heap.Variables

/-!
# The include path

The array `@INC` is filled when a heap is booted. Packages that come in make and write variables of their
own; none of them is `@INC`, and none of them shares a cell with it.
-/

namespace Embedding

namespace Name

def inc : String := "main::INC"

theorem qualify_INC : qualify "INC" = inc := by decide

/-- Making a name out of a member of a package does not touch the end of it. -/
theorem suffix_qualify (package symbol : String) :
    symbol.toList <:+ (qualify (member package symbol)).toList := by
  have hmember : (member package symbol).toList = package.toList ++ ':' :: ':' :: symbol.toList := by
    simp [member, String.toList_append]
  have hsuffix : symbol.toList <:+ (member package symbol).toList :=
    ⟨package.toList ++ [':', ':'], by simp [hmember]⟩
  have hstrip : symbol.toList <:+ stripMain (member package symbol).toList := by
    unfold stripMain
    split
    · next cs hcs =>
      refine List.suffix_of_suffix_length_le hsuffix (hcs ▸ ⟨[':', ':'], rfl⟩) ?_
      have hlength := congrArg List.length (hcs.symm.trans hmember)
      simp only [List.length_append, List.length_cons] at hlength
      omega
    · exact hsuffix
  unfold qualify within
  split
  · rwa [String.toList_ofList]
  · rw [String.toList_append, String.toList_ofList]
    exact hstrip.trans (List.suffix_append ..)

theorem qualify_ISA_ne (package : String) : qualify (member package "ISA") ≠ inc := by
  intro h
  have hsuffix := suffix_qualify package "ISA"
  rw [h] at hsuffix
  exact absurd hsuffix (by decide)

end Name

namespace Heap

variable {h h' h₁ : Heap} {σ τ : List CellId} {a c d : CellId} {slot : Slot} {qualified : String}
  {paths texts : List String} {written : CellId → Prop}

/-- Those cells that are written are among the named ones, and variables are made with new cells. -/
structure Writes (written : CellId → Prop) (h h' : Heap) : Prop where
  cells : ∀ d x', d.index < h.cells.size → h'.cell? d = some x' →
    ∃ x, h.cell? d = some x ∧ (¬ written d → x'.content = x.content)
  kept : ∀ slot name d, slot ≠ .code → h.symbol? slot name = some d → h'.symbol? slot name = some d
  made : ∀ slot name d, slot ≠ .code → h'.symbol? slot name = some d →
    h.symbol? slot name = some d ∨ h.cells.size ≤ d.index

/-- The array `@INC` shows the paths, and no other variable shares its cells. -/
structure Includes (h : Heap) (a : CellId) (paths : List String) : Prop where
  named : h.symbol? .array Name.inc = some a
  lists : h.Lists a (paths.map .text)
  sole : ∀ name, h.symbol? .array name = some a → name = Name.inc
  apart : ∀ items, h.items a = .ok items → ∀ c ∈ items.toList, ∀ name, h.symbol? .scalar name ≠ some c

/-! ## Writing elsewhere -/

theorem Assigned.writes (ha : h.Assigned h' slot qualified c) : Writes (· = c) h h' where
  cells d x' hd hx' := by
    obtain ⟨x, hx, hcontent, -⟩ := ha.cells d x' hd hx'
    exact ⟨x, hx, hcontent⟩
  kept slot' name d _ hd := by
    by_cases hsame : slot' = slot ∧ name = qualified
    · obtain ⟨rfl, rfl⟩ := hsame
      rcases ha.own with hown | ⟨hnone, -⟩
      · rw [ha.named, ← hown, hd]
      · cases hnone.symm.trans hd
    · rwa [ha.others slot' name hsame]
  made slot' name d _ hd := by
    by_cases hsame : slot' = slot ∧ name = qualified
    · obtain ⟨rfl, rfl⟩ := hsame
      obtain rfl := Option.some.inj (ha.named.symm.trans hd)
      exact ha.own.imp_right And.right
    · exact .inl (ha.others slot' name hsame ▸ hd)

theorem writes_defineSub (h : Heap) (name : String) (body : NativeSub) :
    Writes (fun _ => False) h ((defineSub name body).run h).2 := by
  let h₁ := ((h.allocate (.code (Name.qualify name) body)).2.define .code (Name.qualify name)
    (h.allocate (.code (Name.qualify name) body)).1)
  have hrun : ((defineSub name body).run h).2 =
      ((releaseOption (h.symbol? .code (Name.qualify name))).run h₁).2 := rfl
  have hshrinks := releaseOption_shrinks h₁ (h.symbol? .code (Name.qualify name))
  rw [← hrun] at hshrinks
  have hsymbol (slot : Slot) (name' : String) (hslot : slot ≠ .code) :
      ((defineSub name body).run h).2.symbol? slot name' = h.symbol? slot name' := by
    rw [symbol?, hshrinks.symbols]
    exact (symbol?_define ..).trans (if_neg fun e => hslot e.1.symm)
  refine ⟨fun d x' hd hx' => ?_, fun slot name' d hslot hd => ?_, fun slot name' d hslot hd => ?_⟩
  · obtain ⟨x₁, hx₁, hcontent, -⟩ := hshrinks.cells d x' hx'
    obtain ⟨x, hx, hcontent', -⟩ := (grows_allocate h _).firm.cells d x₁ hd hx₁
    exact ⟨x, hx, fun _ => hcontent.trans hcontent'⟩
  · rwa [hsymbol slot name' hslot]
  · exact .inl (hsymbol slot name' hslot ▸ hd)

theorem Writes.content (hw : Writes written h h') {x : Cell} (hx : h.cell? c = some x) (hlive : h'.isLive c)
    (hnot : ¬ written c) : ∃ x', h'.cell? c = some x' ∧ x'.content = x.content := by
  obtain ⟨x', hx'⟩ := exists_cell hlive
  obtain ⟨y, hy, hcontent⟩ := hw.cells c x' (lt_of_cell? hx) hx'
  cases hx.symm.trans hy
  exact ⟨x', hx', hcontent hnot⟩

theorem Writes.items (hw : Writes written h h') {items : Array CellId} (hitems : h.items c = .ok items)
    (hlive : h'.isLive c) (hnot : ¬ written c) : h'.items c = .ok items := by
  obtain ⟨x, hx, hcontent⟩ := items_eq_ok_iff.1 hitems
  obtain ⟨x', hx', hsame⟩ := hw.content hx hlive hnot
  exact items_eq_ok_iff.2 ⟨x', hx', hsame.trans hcontent⟩

theorem Writes.reads? (hw : Writes written h h') {v : Value} (hc : h.reads? c = some v) (hlive : h'.isLive c)
    (hnot : ¬ written c) : h'.reads? c = some v := by
  obtain ⟨s, hs, hplain⟩ := reads?_eq_some_iff.1 hc
  obtain ⟨x, hx, hcontent⟩ := scalar_eq_ok_iff.1 hs
  obtain ⟨x', hx', hsame⟩ := hw.content hx hlive hnot
  exact reads?_eq_some_iff.2 ⟨s, scalar_eq_ok_iff.2 ⟨x', hx', hsame.trans hcontent⟩, hplain⟩

theorem Includes.writes (hi : h.Includes a paths) (hs : h.Sound σ) (hs' : h'.Sound τ)
    (hw : Writes written h h') (hown : ¬ written a)
    (hitems : ∀ items, h.items a = .ok items → ∀ c ∈ items.toList, ¬ written c) : h'.Includes a paths := by
  obtain ⟨items, hold, hmap⟩ := id hi.lists
  have hnamed := hw.kept .array Name.inc a (by decide) hi.named
  have hnew : h'.items a = .ok items := hw.items hold (hs'.isLive_symbol hnamed) hown
  refine ⟨hnamed, ⟨items, hnew, ?_⟩, fun name hname => ?_, fun items' hitems' c hc name hname => ?_⟩
  · rw [← hmap]
    refine List.map_congr_left fun c hc => ?_
    obtain ⟨v, -, hv⟩ := hi.lists.exists_reads? hold hc
    rw [hv]
    exact hw.reads? hv (hs'.isLive_item hnew hc) (hitems items hold c hc)
  · have hlt := lt_of_isLive (hs.isLive_symbol hi.named)
    exact hi.sole name ((hw.made .array name a (by decide) hname).resolve_right (Nat.not_le.2 hlt))
  · cases hnew.symm.trans hitems'
    have hlt := lt_of_isLive (hs.isLive_item hold hc)
    have hmade := hw.made .scalar name c (by decide) hname
    exact hi.apart items hold c hc name (hmade.resolve_right (Nat.not_le.2 hlt))

theorem Includes.assigned (hi : h.Includes a paths) (hs : h.Sound σ) (hs' : h'.Sound τ)
    (ha : h.Assigned h' slot qualified c) (hslot : slot = .scalar ∨ slot = .array ∧ qualified ≠ Name.inc) :
    h'.Includes a paths := by
  have hold {d : CellId} (hd : h.isLive d) (hdc : d = c) : h.symbol? slot qualified = some d := by
    rcases ha.own with hown | ⟨-, hnew⟩
    · exact hdc ▸ hown
    · exact absurd hd (not_isLive_of_size_le (hdc ▸ hnew))
  refine hi.writes hs hs' ha.writes (fun hac => ?_) fun items hitems d hd hdc => ?_
  · have hsymbol := hold (hs.isLive_symbol hi.named) hac
    rcases hslot with rfl | ⟨rfl, hne⟩
    · obtain ⟨x, hx, hsort⟩ := hs.hasSort hsymbol
      obtain ⟨y, hy, hsort'⟩ := hs.hasSort hi.named
      cases hx.symm.trans hy
      cases hsort.symm.trans hsort'
    · exact hne (hi.sole qualified hsymbol)
  · have hsymbol := hold (hs.isLive_item hitems hd) hdc
    rcases hslot with rfl | ⟨rfl, -⟩
    · exact hi.apart items hitems d hd qualified hsymbol
    · -- an item of `@INC` reads as a text, which no array does
      obtain ⟨v, -, hv⟩ := hi.lists.exists_reads? hitems hd
      obtain ⟨more, hmore⟩ := (hs.hasSort hsymbol).items
      exact ne_of_reads? hmore hv rfl

/-! ## Packages that come in -/

theorem newScalar_grows (h : Heap) (x : Embedding.Scalar) : h.Grows ((newScalar x).run h).2 :=
  grows_allocate h _

theorem preserves_storeTexts (base : Heap) (c : CellId) : ∀ (index : Nat) (texts : List String),
    Preserves (base.Firm (Besides c)) (storeTexts c index texts)
  | _, [] => fun _ hf => hf
  | index, _ :: texts =>
    (preserves_grows base fun h => newScalar_grows h _).bind fun d =>
      (preserves_arrayStore base c index d).bind fun _ =>
        (preserves_shrinks base fun h => release_shrinks h d).bind fun _ =>
          preserves_storeTexts base c (index + 1) texts

theorem assigned_variableCell (hs : h.Sound σ) (hslot : slot ≠ .code) (name : String)
    {use : CellId → HeapM Unit} (huse : ∀ (base : Heap) c, Preserves (base.Firm (Besides c)) (use c)) :
    ∃ c, h.Assigned ((variableCell slot name >>= use).run h).2 slot (Name.qualify name) c := by
  obtain ⟨c, h₁, hrun, -, -, -, hassigned⟩ := run_global_create hs hslot name
  have hcell : (variableCell slot name).run h = (.ok c, h₁) := run_bind_ok hrun
  refine ⟨c, ?_⟩
  rw [run_bind_ok hcell]
  exact hassigned.besides (huse h₁ c h₁ (firm_refl (fun _ _ _ => rfl) h₁))

theorem assigned_setVariable (hs : h.Sound σ) (name : String) (literal : Literal) :
    ∃ c, h.Assigned ((setVariable name literal).run h).2 .scalar (Name.qualify name) c :=
  assigned_variableCell hs (by decide) name fun base c =>
    (preserves_grows base fun h => newScalar_grows h _).bind fun value =>
      (preserves_assign base c value).bind fun _ =>
        (preserves_shrinks base fun h => release_shrinks h value).bind fun _ =>
          preserves_shrinks base fun h => release_shrinks h c

theorem assigned_resetVariable (hs : h.Sound σ) (name : String) (texts : List String) :
    ∃ c, h.Assigned ((resetVariable name texts).run h).2 .array (Name.qualify name) c :=
  assigned_variableCell hs (by decide) name fun base c =>
    (preserves_arrayClear base c).bind fun _ => (preserves_storeTexts base c 0 texts).bind fun _ =>
      preserves_shrinks base fun h => release_shrinks h c

theorem Includes.load {loaded : List String} (hi : h.Includes a paths) :
    ({ h with loaded } : Heap).Includes a paths := ⟨hi.named, hi.lists, hi.sole, hi.apart⟩

/-- A heap in which the host has no stakes yet, with the include path. -/
def Equipped (a : CellId) (paths : List String) (h : Heap) : Prop := h.Sound [] ∧ h.Includes a paths

theorem preserves_equipped {x : HeapM Unit} (hx : ∀ h, Gives x h [] fun _ => [])
    (hkeeps : ∀ h, h.Sound [] → (x.run h).2.Sound [] → h.Includes a paths → (x.run h).2.Includes a paths) :
    Preserves (Equipped a paths) x := by
  intro h ⟨hs, hi⟩
  obtain ⟨_, h', hrun, -, hs'⟩ := hx h [] hs
  have hkeeps := hkeeps h hs
  rw [hrun] at hkeeps ⊢
  exact ⟨hs', hkeeps hs' hi⟩

theorem equipped_defineSub (name : String) (body : NativeSub) :
    Preserves (Equipped a paths) (defineSub name body) :=
  preserves_equipped (fun h => gives_defineSub h name body) fun h hs hs' hi =>
    hi.writes hs hs' (writes_defineSub h name body) not_false fun _ _ _ _ => not_false

theorem equipped_install (p : Package) : Preserves (Equipped a paths) (install p) := by
  rw [install_eq]
  refine (preserves_forM fun sub _ => equipped_defineSub _ sub.2).bind fun _ => ?_
  refine (preserves_forM fun entry _ => ?_).bind fun _ => ?_
  · refine preserves_equipped (fun h => gives_setVariable h _ entry.2) fun h hs hs' hi => ?_
    obtain ⟨c, hassigned⟩ := assigned_setVariable hs (Name.member p.name entry.1) entry.2
    exact hi.assigned hs hs' hassigned (.inl rfl)
  have hmark : Preserves (Equipped a paths) (markLoaded p.name) := by
    refine preserves_equipped (fun h => gives_markLoaded h p.name) fun h _ _ hi => ?_
    change Includes (if h.isLoaded p.name then h else _) a paths
    split
    · exact hi
    · exact hi.load
  split
  · refine Preserves.bind ?_ fun _ => hmark
    refine preserves_equipped (fun h => gives_resetVariable h _ p.isa) fun h hs hs' hi => ?_
    obtain ⟨c, hassigned⟩ := assigned_resetVariable hs (Name.member p.name "ISA") p.isa
    exact hi.assigned hs hs' hassigned (.inr ⟨rfl, Name.qualify_ISA_ne p.name⟩)
  · exact hmark

theorem Equipped.require {setup : Setup} {package : String} (he : Equipped a paths h)
    (hrun : (require setup package).run h = (.ok (), h')) : Equipped a paths h' := by
  rw [Heap.require, run_get_bind] at hrun
  split at hrun
  · cases hrun
    exact he
  · split at hrun
    · next p _ =>
      split at hrun
      · exact absurd hrun not_run_die
      · have hinstalled := equipped_install p h he
        rwa [hrun] at hinstalled
    · rw [run_get_bind] at hrun
      exact absurd hrun not_run_die

/-! ## The first heap -/

theorem Lists.run_storeTexts : ∀ (texts : List String) {h : Heap} {vs : List Value}, h.Lists a vs →
    h.Sound σ → a ∈ σ → ∃ h', (storeTexts a vs.length texts).run h = (.ok (), h') ∧ h'.Sound σ ∧
      h'.Lists a (vs ++ texts.map .text)
  | [], h, vs, hl, hs, _ => ⟨h, rfl, hs, by rwa [List.map_nil, List.append_nil]⟩
  | s :: texts, h, vs, hl, hs, ha => by
    let new : CellId := ⟨h.cells.size⟩
    let h₁ := (h.allocate (.scalar (.ofText s))).2
    have hs₁ : h₁.Sound (new :: σ) := Sound.allocate hs
    have hgrows : h.Grows h₁ := grows_allocate h _
    have hread : h₁.reads? new = some (.text s) := by
      have hscalar : h₁.scalar new = .ok (.ofText s) :=
        scalar_eq_ok_iff.2 ⟨_, (cell?_allocate ..).trans (if_pos rfl), rfl⟩
      rw [reads?_of_scalar hscalar]
      exact Value.plain?_scalar rfl
    have hl₁ := hl.unchanged hgrows.firm hs₁ (hs₁.isLive (.tail _ ha))
    obtain ⟨h₂, hstore, hs₂, -, hl₂⟩ := hl₁.run_arrayStore hs₁ (.tail _ ha) hread vs.length
    obtain ⟨h₃, hrelease, hshrinks, hs₃⟩ := hs₂.run_release
    have hl₃ := hl₂.unchanged hshrinks.firm hs₃ (hs₃.isLive ha)
    have hstored : Value.storeAt vs vs.length (.text s) = vs ++ [.text s] := by
      rw [Value.storeAt_ge (Nat.le_refl _), Nat.sub_self, List.replicate_zero, List.append_nil]
    rw [hstored] at hl₃
    obtain ⟨h', hrest, hs', hl'⟩ := hl₃.run_storeTexts texts hs₃ ha
    refine ⟨h', ?_, hs', by rwa [List.map_cons, List.append_cons]⟩
    rw [storeTexts, run_bind_ok (show (newScalar (.ofText s)).run h = (.ok new, h₁) from rfl),
      run_bind_ok hstore, run_bind_ok hrelease, ← hrest, List.length_append]
    rfl

theorem symbol?_initial {name : String} (hc : initial.symbol? slot name = some c) :
    slot = .scalar ∧ c = ⟨1⟩ := by
  obtain ⟨x, hx, hslot⟩ := sound_initial.hasSort hc
  obtain ⟨rfl, rfl⟩ := initial_cell? hx
  exact ⟨(Option.some.inj hslot).symm, rfl⟩

/-- The first array is a new one, so it has nothing in common with the variable for the pending error. -/
theorem includes_of_assigned (hs : h.Sound σ) (ha : initial.Assigned h .array Name.inc a)
    (hl : h.Lists a (paths.map .text)) : h.Includes a paths := by
  refine ⟨ha.named, hl, fun name hname => ?_, fun items hitems c hc name hname => ?_⟩
  · refine Decidable.byContradiction fun hne => ?_
    rw [ha.others .array name fun e => hne e.2] at hname
    exact absurd (symbol?_initial hname).1 (by decide)
  · rw [ha.others .scalar name fun e => absurd e.1 (by decide)] at hname
    obtain ⟨-, rfl⟩ := symbol?_initial hname
    -- the cell for the pending error holds no text, but the items are texts
    obtain ⟨x, hx⟩ := exists_cell (hs.isLive_item hitems hc)
    obtain ⟨y, hy, hcontent, -⟩ := ha.cells ⟨1⟩ x (by decide) hx
    obtain ⟨-, rfl⟩ := initial_cell? hy
    obtain ⟨v, hv, hread⟩ := hl.exists_reads? hitems hc
    obtain ⟨t, -, rfl⟩ := List.mem_map.1 hv
    have hne := ne_of_reads? hitems hread
    rw [reads?_of_scalar (scalar_eq_ok_iff.2 ⟨x, hx, hcontent hne⟩)] at hread
    cases hread

theorem run_variableCell_inc : ∃ a h, (variableCell .array "INC").run .initial = (.ok a, h) ∧ h.Sound [a] ∧
    h.Lists a [] ∧ initial.Assigned h .array Name.inc a := by
  have hslot : Slot.array ≠ .code := by decide
  have hnone : initial.symbol? .array (Name.qualify "INC") = none := by decide
  obtain ⟨a, h, hrun, hs, -, -, hassigned⟩ := run_global_create sound_initial hslot "INC"
  refine ⟨a, h, run_bind_ok hrun, hs, ?_, Name.qualify_INC ▸ hassigned⟩
  rw [run_global_new hnone rfl] at hrun
  cases hrun
  exact ⟨#[], rfl, rfl⟩

theorem equipped_fillVariable (texts : List String) : ∃ a h',
    (fillVariable "INC" texts).run .initial = (.ok (), h') ∧ Equipped a texts h' := by
  obtain ⟨a, h₁, hcell, hs₁, hempty, hassigned₁⟩ := run_variableCell_inc
  obtain ⟨h₂, hstore, hs₂, hl₂⟩ := hempty.run_storeTexts texts hs₁ (.head _)
  rw [List.length_nil] at hstore
  have hfirm := preserves_storeTexts h₁ a 0 texts h₁ (firm_refl (fun _ _ _ => rfl) h₁)
  rw [hstore] at hfirm
  obtain ⟨h₃, hrelease, hshrinks, hs₃⟩ := hs₂.run_release
  have hassigned := (hassigned₁.besides hfirm).unchanged hshrinks.firm
  have hl₃ := hl₂.unchanged hshrinks.firm hs₃ (hs₃.isLive_symbol hassigned.named)
  refine ⟨a, h₃, ?_, hs₃, includes_of_assigned hs₃ hassigned hl₃⟩
  rw [fillVariable, run_bind_ok hcell, run_bind_ok hstore, hrelease]

theorem equipped_boot (setup : Setup) (args : List String) :
    ∃ a, Equipped a (includePaths args) ((boot setup args).run .initial).2 := by
  obtain ⟨a, h, hfill, he⟩ := equipped_fillVariable (includePaths args)
  refine ⟨a, ?_⟩
  rw [boot_eq, run_bind_ok hfill]
  refine ((equipped_defineSub _ _).bind fun _ => (equipped_defineSub _ _).bind fun _ =>
    preserves_forM fun name _ => ?_) h he
  cases setup.provided.get? name with
  | some p => exact equipped_install p
  | none => exact preserves_pure ()

end Heap

end Embedding
