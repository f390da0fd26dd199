import Embedding.Heap.Loading
import Embedding.Proofs.Heap.Errors

/-!
# Stakes of loading packages
-/

namespace Embedding.Heap

variable {α : Type} {h h' : Heap} {σ : List CellId} {c : CellId} {items : Array CellId}
  {s : Embedding.Scalar}

theorem gives_forM {f : α → HeapM Unit} (hf : ∀ a h, Gives (f a) h [] fun _ => []) :
    ∀ (l : List α) (h : Heap), Gives (l.forM f) h [] fun _ => []
  | [], h => gives_pure () h fun _ => []
  | a :: l, h => by
    change Gives (f a >>= fun _ => l.forM f) h [] _
    exact (hf a h).bind fun _ h' _ => gives_forM hf l h'

theorem scalar_of_slot? {x : Cell} (hx : h.cell? c = some x) (hslot : x.content.slot? = some .scalar) :
    ∃ s, h.scalar c = .ok s := by
  cases hcontent : x.content with
  | scalar s => exact ⟨s, scalar_eq_ok_iff.2 ⟨x, hx, hcontent⟩⟩
  | _ => rw [hcontent] at hslot; cases hslot

theorem items_of_slot? {x : Cell} (hx : h.cell? c = some x) (hslot : x.content.slot? = some .array) :
    ∃ items, h.items c = .ok items := by
  cases hcontent : x.content with
  | array items => exact ⟨items, items_eq_ok_iff.2 ⟨x, hx, hcontent⟩⟩
  | _ => rw [hcontent] at hslot; cases hslot

theorem Evolves.items_ok (hev : h.Evolves h') (hc : h.items c = .ok items) (hlive : h'.isLive c) :
    ∃ items', h'.items c = .ok items' := by
  obtain ⟨x, hx, hcontent⟩ := items_eq_ok_iff.1 hc
  obtain ⟨x', hx'⟩ := exists_cell hlive
  obtain ⟨y, hy, hslot⟩ := hev.sorts c x' hx' (lt_of_cell? hx)
  obtain rfl := Option.some.inj (hx.symm.trans hy)
  exact items_of_slot? hx' (by rw [hslot, hcontent]; rfl)

theorem Evolves.scalar_ok (hev : h.Evolves h') (hc : h.scalar c = .ok s) (hlive : h'.isLive c) :
    ∃ s', h'.scalar c = .ok s' := by
  obtain ⟨x, hx, hcontent⟩ := scalar_eq_ok_iff.1 hc
  obtain ⟨x', hx'⟩ := exists_cell hlive
  obtain ⟨y, hy, hslot⟩ := hev.sorts c x' hx' (lt_of_cell? hx)
  obtain rfl := Option.some.inj (hx.symm.trans hy)
  exact scalar_of_slot? hx' (by rw [hslot, hcontent]; rfl)

theorem gives_storeTexts : ∀ (texts : List String) (index : Nat) (h : Heap) (items : Array CellId),
    h.items c = .ok items → Gives (storeTexts c index texts) h [c] fun _ => [c]
  | [], _, h, _, _ => gives_pure () h fun _ => [c]
  | s :: texts, index, h, items, hc => by
    intro σ hs
    obtain ⟨d, h₁, hrun₁, hev₁, hs₁⟩ := gives_newScalar (.ofText s) h (c :: σ) hs
    have hlive₁ : h₁.isLive c := hs₁.isLive (by simp)
    obtain ⟨items₁, hc₁⟩ := hev₁.items_ok hc hlive₁
    obtain ⟨_, h₂, hrun₂, hev₂, hs₂⟩ :=
      gives_arrayStore hc₁ (hs₁.isLive (List.mem_cons_self ..)) index _ hs₁
    obtain ⟨_, h₃, hrun₃, hev₃, hs₃⟩ := gives_release h₂ d (c :: σ) hs₂
    obtain ⟨items₃, hc₃⟩ := (hev₂.trans hev₃).items_ok hc₁ (hs₃.isLive (by simp))
    obtain ⟨_, h₄, hrun₄, hev₄, hs₄⟩ := gives_storeTexts texts (index + 1) h₃ items₃ hc₃ σ hs₃
    refine ⟨(), h₄, ?_, ((hev₁.trans hev₂).trans hev₃).trans hev₄, hs₄⟩
    rw [storeTexts, run_bind_ok hrun₁, run_bind_ok hrun₂, run_bind_ok hrun₃, hrun₄]

theorem variableCell_spec (hs : h.Sound σ) (slot : Slot) (hslot : slot ≠ .code) (name : String) :
    ∃ c h', (variableCell slot name).run h = (.ok c, h') ∧ h.Evolves h' ∧ h'.Sound (c :: σ) ∧
      ∃ x, h'.cell? c = some x ∧ x.content.slot? = some slot := by
  obtain ⟨o, h', hrun, hev, hs', hnamed, hsome⟩ := global_spec hs slot name true
  obtain ⟨c, rfl⟩ := Option.isSome_iff_exists.1 (hsome rfl hslot)
  exact ⟨c, h', run_bind_ok hrun, hev, hs', hs'.named.sorts _ _ _ (hnamed c rfl)⟩

def setVariable (name : String) (literal : Literal) : HeapM Unit := do
  let c ← variableCell .scalar name
  let value ← newScalar (literalScalar literal)
  assign c value
  release value
  release c

theorem literalScalar_ref (literal : Literal) : (literalScalar literal).ref = none := by
  cases literal <;> rfl

theorem gives_setVariable (h : Heap) (name : String) (literal : Literal) :
    Gives (setVariable name literal) h [] fun _ => [] := by
  intro σ hs
  obtain ⟨c, h₁, hrun₁, hev₁, hs₁, x, hx, hslot⟩ := variableCell_spec hs .scalar nofun name
  obtain ⟨s, hc⟩ := scalar_of_slot? hx hslot
  have hnew := gives_newScalar (literalScalar literal) h₁
  rw [literalScalar_ref] at hnew
  obtain ⟨value, h₂, hrun₂, hev₂, hs₂⟩ := hnew (c :: σ) hs₁
  obtain ⟨s₂, hc₂⟩ := hev₂.scalar_ok hc (hs₂.isLive (by simp))
  obtain ⟨_, h₃, hrun₃, hev₃, hs₃⟩ := gives_assign hc₂ (hs₂.isLive (List.mem_cons_self ..)) _ hs₂
  obtain ⟨_, h₄, hrun₄, hev₄, hs₄⟩ := gives_release h₃ value (c :: σ) hs₃
  obtain ⟨_, h₅, hrun₅, hev₅, hs₅⟩ := gives_release h₄ c σ hs₄
  refine ⟨(), h₅, ?_, hev₁.trans (hev₂.trans (hev₃.trans (hev₄.trans hev₅))), hs₅⟩
  rw [setVariable, run_bind_ok hrun₁, run_bind_ok hrun₂, run_bind_ok hrun₃, run_bind_ok hrun₄,
    hrun₅]

def fillVariable (name : String) (texts : List String) : HeapM Unit := do
  let array ← variableCell .array name
  storeTexts array 0 texts
  release array

theorem gives_fillVariable (h : Heap) (name : String) (texts : List String) :
    Gives (fillVariable name texts) h [] fun _ => [] := by
  intro σ hs
  obtain ⟨c, h₁, hrun₁, hev₁, hs₁, x, hx, hslot⟩ := variableCell_spec hs .array nofun name
  obtain ⟨items, hc⟩ := items_of_slot? hx hslot
  obtain ⟨_, h₂, hrun₂, hev₂, hs₂⟩ := gives_storeTexts texts 0 h₁ items hc σ hs₁
  obtain ⟨_, h₃, hrun₃, hev₃, hs₃⟩ := gives_release h₂ c σ hs₂
  refine ⟨(), h₃, ?_, hev₁.trans (hev₂.trans hev₃), hs₃⟩
  rw [fillVariable, run_bind_ok hrun₁, run_bind_ok hrun₂, hrun₃]

def resetVariable (name : String) (texts : List String) : HeapM Unit := do
  let array ← variableCell .array name
  arrayClear array
  storeTexts array 0 texts
  release array

theorem gives_resetVariable (h : Heap) (name : String) (texts : List String) :
    Gives (resetVariable name texts) h [] fun _ => [] := by
  intro σ hs
  obtain ⟨c, h₁, hrun₁, hev₁, hs₁, x, hx, hslot⟩ := variableCell_spec hs .array nofun name
  obtain ⟨items, hc⟩ := items_of_slot? hx hslot
  obtain ⟨_, h₂, hrun₂, hev₂, hs₂⟩ := gives_arrayClear hc (c :: σ) hs₁
  obtain ⟨items₂, hc₂⟩ := hev₂.items_ok hc (hs₂.isLive (List.mem_cons_self ..))
  obtain ⟨_, h₃, hrun₃, hev₃, hs₃⟩ := gives_storeTexts texts 0 h₂ items₂ hc₂ σ hs₂
  obtain ⟨_, h₄, hrun₄, hev₄, hs₄⟩ := gives_release h₃ c σ hs₃
  refine ⟨(), h₄, ?_, hev₁.trans (hev₂.trans (hev₃.trans hev₄)), hs₄⟩
  rw [resetVariable, run_bind_ok hrun₁, run_bind_ok hrun₂, run_bind_ok hrun₃, hrun₄]

theorem gives_markLoaded (h : Heap) (package : String) :
    Gives (markLoaded package) h [] fun _ => [] := by
  intro σ hs
  refine ⟨(), _, rfl, ?_⟩
  dsimp only
  split
  · exact ⟨.refl h, hs⟩
  · exact ⟨⟨Nat.le_refl _, fun _ x hx _ => ⟨x, hx, rfl⟩, fun _ _ _ _ hn => hn⟩,
      ⟨⟨hs.exact.counts, hs.exact.held⟩, ⟨hs.named.sorts, hs.named.error⟩⟩⟩

theorem install_eq (p : Package) : install p = (do
    p.subs.forM fun sub => defineSub (Name.member p.name sub.1) sub.2
    p.scalars.forM fun scalar => setVariable (Name.member p.name scalar.1) scalar.2
    if p.isa ≠ [] then resetVariable (Name.member p.name "ISA") p.isa
    markLoaded p.name) := by
  unfold install setVariable resetVariable
  congr 1
  funext _
  congr 1
  funext _
  split <;> simp only [bind_assoc]

theorem gives_install (h : Heap) (p : Package) : Gives (install p) h [] fun _ => [] := by
  rw [install_eq]
  have hsubs := gives_forM (f := fun sub => defineSub (Name.member p.name sub.1) sub.2)
    (fun sub h => gives_defineSub h _ _) p.subs h
  refine hsubs.bind fun _ h₁ _ => ?_
  have hscalars := gives_forM (f := fun entry => setVariable (Name.member p.name entry.1) entry.2)
    (fun entry h => gives_setVariable h _ _) p.scalars h₁
  refine hscalars.bind fun _ h₂ _ => ?_
  split
  · exact (gives_resetVariable h₂ _ p.isa).bind fun _ h₃ _ => gives_markLoaded h₃ p.name
  · exact gives_markLoaded h₂ p.name

theorem tracks_require (h : Heap) (setup : Setup) (package : String) (tidy : Prop) :
    Tracks (require setup package) h tidy fun _ => [] := by
  refine Tracks.of_run ?_ (run_get_bind _ h)
  split
  · exact (gives_pure () h fun _ => []).tracks tidy
  · split
    · next p _ =>
      cases p.compileError with
      | some diagnostic => exact tracks_die h _ tidy _
      | none => exact (gives_install h p).tracks tidy
    · exact (tracks_die h _ tidy _).of_run (run_get_bind _ h)

/-! ## The first heap -/

theorem initial_cell? {c : CellId} {x : Cell} (hc : initial.cell? c = some x) :
    c = ⟨1⟩ ∧ x = { refcount := 1, content := .scalar (.ofBytes [] false) } := by
  obtain ⟨i⟩ := c
  match i with
  | 0 => cases hc
  | 1 => cases hc; exact ⟨rfl, rfl⟩
  | i + 2 => cases hc

theorem sound_initial : initial.Sound [] where
  exact := by
    refine ⟨fun c x hc => ?_, fun c hc => ?_⟩
    · obtain ⟨rfl, rfl⟩ := initial_cell? hc
      exact ⟨rfl, Nat.le_refl 1⟩
    · obtain rfl : c = ⟨1⟩ := List.mem_singleton.1 hc
      rfl
  named := by
    refine ⟨fun slot name c hn => ?_, ⟨1⟩, rfl⟩
    cases slot with
    | scalar =>
      obtain rfl : c = ⟨1⟩ := by
        have := mem_values_of_get? hn
        exact List.mem_singleton.1 this
      exact ⟨_, rfl, rfl⟩
    | _ => cases hn

theorem boot_eq (setup : Setup) (args : List String) : boot setup args = (do
    fillVariable "INC" (includePaths args)
    defineSub "UNIVERSAL::isa" Universal.isa
    defineSub "UNIVERSAL::can" Universal.can
    setup.preloaded.forM fun name =>
      match setup.provided.get? name with
      | some p => install p
      | none => return) := by
  unfold boot fillVariable
  rw [bind_assoc]
  exact bind_congr fun _ => (bind_assoc ..).symm

theorem gives_boot (h : Heap) (setup : Setup) (args : List String) :
    Gives (boot setup args) h [] fun _ => [] := by
  rw [boot_eq]
  refine (gives_fillVariable h "INC" _).bind fun _ h₁ _ => ?_
  refine (gives_defineSub h₁ _ _).bind fun _ h₂ _ => ?_
  refine (gives_defineSub h₂ _ _).bind fun _ h₃ _ => gives_forM (fun name h => ?_) _ h₃
  cases setup.provided.get? name with
  | some p => exact gives_install h p
  | none => exact gives_pure () h fun _ => []

end Embedding.Heap
