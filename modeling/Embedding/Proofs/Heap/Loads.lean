import Embedding.Proofs.Heap.Methods
import Embedding.Proofs.Heap.Quiet

/-!
# Loaded packages

Packages come into a heap when it is booted and when they are required, and in no other way. One that is in
is not brought in again.
-/

namespace Embedding

/-- The setups that a host can build, one package after the other. -/
inductive Setup.Built : Setup → Prop
  | new : Built {}
  | provide {setup : Setup} (p : Package) : Built setup → Built (setup.provide p)
  | preload {setup : Setup} (p : Package) : Built setup → Built (setup.preload p)
  | configure {setup : Setup} (capabilities : Capabilities) (evaluator : Option Evaluator) :
    Built setup → Built { setup with capabilities, evaluator }

variable {setup : Setup} {p q : Package} {name package : String}

theorem Setup.Built.name_eq (hbuilt : setup.Built) (hp : setup.provided.get? name = some p) :
    p.name = name := by
  induction hbuilt with
  | new => cases hp
  | provide q _ ih | preload q _ ih =>
    have hp : (Dict.insert _ q.name q).get? name = some p := hp
    rw [Dict.get?_insert] at hp
    split at hp
    · next hname => exact Option.some.inj hp ▸ hname
    · exact ih hp
  | configure _ _ _ ih => exact ih hp

/-- There is a way for the package to come in. -/
def Setup.Loadable (setup : Setup) (name : String) : Prop :=
  name ∈ setup.preloaded ∨ ∃ p, setup.provided.get? name = some p ∧ p.compileError = none

namespace Heap

variable {h h' : Heap} {σ : List CellId} {c : CellId}

/-- Nothing but the loading of packages changes which ones are loaded. -/
theorem sturdy_loaded (P : List String → Prop) : Sturdy .all fun h => P h.loaded where
  allocate hh _ _ := hh
  recount hh _ _ _ := hh
  drop {h} hh c := by rwa [(shrinks_drop _ h c).loaded]
  setContainer hh _ _ _ := hh
  setScalar hh _ _ _ _ _ := hh
  setNumified hh _ _ := hh
  setPackage hh _ _ := hh
  define hh _ _ _ _ := hh
  made _ := trivial
  named _ _ := trivial

theorem stable_isLoaded (package : String) : Stable .all fun h => package ∈ h.loaded where
  toSturdy := sturdy_loaded (package ∈ ·)
  load hh _ := List.mem_cons_of_mem _ hh

/-- The packages that are loaded are ones that are there from the start, and ones that compile. -/
def LoadedFrom (setup : Setup) (h : Heap) : Prop := ∀ name ∈ h.loaded, setup.Loadable name

theorem sturdy_loadedFrom (setup : Setup) : Sturdy .all (LoadedFrom setup) :=
  sturdy_loaded fun loaded => ∀ name ∈ loaded, setup.Loadable name

theorem preserves_markLoaded (hname : setup.Loadable name) :
    Preserves (LoadedFrom setup) (markLoaded name) := by
  refine preserves_modify fun h hh => ?_
  split
  · exact hh
  · exact List.forall_mem_cons.2 ⟨hname, hh⟩

theorem loadedFrom_boot (hbuilt : setup.Built) (args : List String) :
    LoadedFrom setup ((boot setup args).run .initial).2 := by
  refine (sturdy_loadedFrom setup).boot (allBodies_true setup) (fun name hname p hp => ?_) args .initial nofun
  exact preserves_markLoaded (.inl (hbuilt.name_eq hp ▸ hname))

theorem LoadedFrom.answer (hbuilt : setup.Built) (hh : LoadedFrom setup h) {s : Shape}
    (request : Request CellId s) : LoadedFrom setup ((Heap.answer setup request).run h).2 := by
  refine (sturdy_loadedFrom setup).answer (allBodies_true setup) (fun package p hp herror => ?_) request hh
    (Latitude.free_all.request setup request h)
  have hname := hbuilt.name_eq hp
  exact preserves_markLoaded (.inr ⟨p, hname ▸ hp, herror⟩)

theorem LoadedFrom.not_loaded {diagnostic : String} (hh : LoadedFrom setup h)
    (hp : setup.provided.get? name = some p) (herror : p.compileError = some diagnostic)
    (hstart : name ∉ setup.preloaded) : h.isLoaded name = false := by
  rw [isLoaded, List.contains_eq_mem, decide_eq_false_iff_not]
  intro hmem
  rcases hh name hmem with hpre | ⟨p', hp', hnone⟩
  · exact hstart hpre
  · cases hp.symm.trans hp'
    cases herror.symm.trans hnone

/-! ## Requiring -/

theorem run_require_loaded (hloaded : package ∈ h.loaded) : (require setup package).run h = (.ok (), h) := by
  have hloaded : h.isLoaded package = true := by simpa [isLoaded] using hloaded
  rw [require, run_get_bind, hloaded]
  rfl

theorem install_loads (hrun : (install p).run h = (.ok (), h')) : p.name ∈ h'.loaded := by
  rw [install_eq] at hrun
  obtain ⟨_, h₁, -, hrun⟩ := run_bind_eq_ok hrun
  obtain ⟨_, h₂, -, hrun⟩ := run_bind_eq_ok hrun
  have hmark {h₃ : Heap} (hrun : (markLoaded p.name).run h₃ = (.ok (), h')) : p.name ∈ h'.loaded := by
    cases hrun
    dsimp only
    split
    · next hloaded => simpa [isLoaded] using hloaded
    · exact List.mem_cons_self
  dsimp only at hrun
  split at hrun
  · obtain ⟨_, h₃, -, hrun⟩ := run_bind_eq_ok hrun
    exact hmark hrun
  · exact hmark hrun

theorem require_loads (hbuilt : setup.Built) (hrun : (require setup package).run h = (.ok (), h')) :
    package ∈ h'.loaded := by
  rw [require, run_get_bind] at hrun
  split at hrun
  · next hloaded =>
    cases hrun
    simpa [isLoaded] using hloaded
  · split at hrun
    · next p hp =>
      split at hrun
      · exact absurd hrun not_run_die
      · have hloads := install_loads hrun
        rwa [hbuilt.name_eq hp] at hloads
    · rw [run_get_bind] at hrun
      exact absurd hrun not_run_die

/-- Whoever requires a package that does not compile is told what is wrong, in a cell of its own and in the
variable for the pending error, and all else stays as it was. -/
theorem Sound.run_require_broken {e : CellId} {diagnostic : String} (hs : h.Sound σ) (he : h.errorCell = .ok e)
    (hp : setup.provided.get? package = some p) (herror : p.compileError = some diagnostic)
    (hloaded : h.isLoaded package = false) :
    ∃ v h', (require setup package).run h = (.error (.died v), h') ∧ v ≠ e ∧
      h'.scalar v = .ok (.ofText s!"{diagnostic}\nCompilation failed in require") ∧
      h'.scalar e = .ok (.ofText s!"{diagnostic}\nCompilation failed in require") ∧
      h.Firm (Besides e) h' ∧ h'.loaded = h.loaded := by
  obtain ⟨v, h', hdie, -, hne, hv, hleft, hfirm⟩ :=
    hs.run_die (α := Unit) he s!"{diagnostic}\nCompilation failed in require"
  have hsame := (sturdy_loaded (· = h.loaded)).die (α := Unit)
    s!"{diagnostic}\nCompilation failed in require" h rfl
  rw [hdie] at hsame
  refine ⟨v, h', ?_, hne, hv, hleft, hfirm, hsame⟩
  rw [require, run_get_bind, hloaded, ← hdie]
  simp only [hp, herror]
  rfl

/-! ## Definitions that do not matter -/

theorem forM_congr {α : Type} {f g : α → HeapM Unit} : ∀ {l : List α}, (∀ a ∈ l, f a = g a) →
    l.forM f = l.forM g
  | [], _ => rfl
  | a :: l, hall => by
    change (f a >>= fun _ => l.forM f) = (g a >>= fun _ => l.forM g)
    rw [hall a (.head _), forM_congr fun b hb => hall b (.tail _ hb)]

theorem boot_provide (hstart : q.name ∉ setup.preloaded) (args : List String) :
    boot (setup.provide q) args = boot setup args := by
  have hget {name : String} (hname : name ∈ setup.preloaded) :
      (setup.provide q).provided.get? name = setup.provided.get? name := by
    have hne : q.name ≠ name := by
      rintro rfl
      exact hstart hname
    rw [Setup.provide, Dict.get?_insert, if_neg hne]
  rw [boot_eq, boot_eq]
  congr 1
  funext _
  congr 1
  funext _
  congr 1
  funext _
  exact forM_congr fun name hname => by rw [hget hname]

section
variable (hq : setup.provided.get? q.name = some p) (hsame : q.compileError = p.compileError)
  (hbroken : p.compileError.isSome)
include hq hsame hbroken

theorem require_provide (package : String) : require (setup.provide q) package = require setup package := by
  obtain ⟨diagnostic, herror⟩ := Option.isSome_iff_exists.1 hbroken
  unfold require Setup.provide
  simp only [Dict.get?_insert]
  by_cases hname : q.name = package
  · subst hname
    simp only [if_pos, hq, hsame, herror]
  · simp only [if_neg hname]

theorem answer_provide {s : Shape} (request : Request CellId s) :
    answer (setup.provide q) request = answer setup request := by
  cases request with
  | require package => exact require_provide hq hsame hbroken package
  | _ => rfl

end

end Heap

end Embedding
