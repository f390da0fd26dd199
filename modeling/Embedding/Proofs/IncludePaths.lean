import Embedding.Proofs.Heap.Included
import Embedding.Proofs.Host.Balance
import Embedding.Proofs.Host.Reading
import Embedding.Proofs.SingleInstance

/-!
# Include paths

The paths of a configuration go to the interpreter as switches, and the interpreter reads them back into
`@INC`. The main statement is when what it reads is what was written. An empty path makes a switch that
takes the argument after it, so such a path arrives only as the last one, and only if an empty argument
comes after it.
-/

namespace Embedding

/-! ## Switches -/

namespace Config

/-- A switch `-I` with all that belongs to it, or the beginning of one. -/
def IsSwitch (arg : String) : Prop := ['-', 'I'] <+: arg.toList

instance : DecidablePred IsSwitch := fun arg => inferInstanceAs (Decidable (['-', 'I'] <+: arg.toList))

/-- No empty path takes an argument that is not empty. -/
def PathsArrive (c : Config) : Prop :=
  "" ∉ c.includePaths.dropLast ∧ (c.includePaths.getLast? = some "" → c.args.tail.head? = some "")

instance (c : Config) : Decidable c.PathsArrive :=
  inferInstanceAs (Decidable (_ ∧ (_ → _)))

end Config

namespace Heap

variable {arg path : String} {args : List String}

theorem includePaths_cons (harg : ¬ Config.IsSwitch arg) : includePaths (arg :: args) = includePaths args := by
  rw [includePaths.eq_def]
  dsimp only
  rw [if_neg]
  · split
    · next path hpath => exact absurd ⟨path, hpath.symm⟩ harg
    · rfl
  · rintro rfl
    exact harg (List.prefix_refl _)

theorem includePaths_eq_nil (hargs : ∀ arg ∈ args, ¬ Config.IsSwitch arg) : includePaths args = [] := by
  induction args with
  | nil => rfl
  | cons arg args ih =>
    rw [includePaths_cons (hargs arg (.head _)), ih fun arg harg => hargs arg (.tail _ harg)]

theorem includePaths_switch (hpath : path ≠ "") (args : List String) :
    includePaths (("-I" ++ path) :: args) = path :: includePaths args := by
  have htext : ("-I" ++ path).toList = '-' :: 'I' :: path.toList := String.toList_append ..
  rw [includePaths.eq_def]
  dsimp only
  rw [if_neg, htext]
  · exact congrArg (· :: includePaths args) String.ofList_toList
  · intro hbare
    rw [hbare] at htext
    exact hpath (String.toList_eq_nil_iff.1 (List.cons.inj (List.cons.inj htext).2).2.symm)

theorem includePaths_bare (arg : String) (args : List String) :
    includePaths ("-I" :: arg :: args) = arg :: includePaths args := by
  rw [includePaths, if_pos rfl]

/-- Switches are read back as the paths that they were made of, if no empty path takes what comes next. -/
theorem includePaths_switches (hargs : ∀ arg ∈ args, ¬ Config.IsSwitch arg) (paths : List String) :
    includePaths (paths.map ("-I" ++ ·) ++ args) = paths ↔
      "" ∉ paths.dropLast ∧ (paths.getLast? = some "" → args.head? = some "") := by
  induction paths with
  | nil => exact iff_of_true (includePaths_eq_nil hargs) ⟨nofun, nofun⟩
  | cons path paths ih =>
    by_cases hpath : path = ""
    · subst hpath
      cases paths with
      | nil =>
        cases args with
        | nil => exact iff_of_false nofun fun h => nomatch h.2 rfl
        | cons arg args =>
          have hrest := includePaths_eq_nil fun arg harg => hargs arg (.tail _ harg)
          change includePaths ("-I" :: arg :: args) = [""] ↔ _
          rw [includePaths_bare, hrest]
          simp
      | cons next paths =>
        -- the switch takes the next one, and no path is read where the empty one was
        refine iff_of_false (fun h => ?_) fun h => h.1 (.head _)
        have hread : includePaths ("-I" :: ("-I" ++ next) :: (paths.map ("-I" ++ ·) ++ args)) =
            "" :: next :: paths := h
        rw [includePaths_bare] at hread
        have htext := congrArg String.toList (List.cons.inj hread).1
        rw [String.toList_append] at htext
        cases htext
    · rw [List.map_cons, List.cons_append, includePaths_switch hpath, List.cons_inj_right, ih]
      cases paths with
      | nil => simpa using fun h => absurd h hpath
      | cons next paths => simp [List.dropLast, Ne.symm hpath]

end Heap

theorem Config.includePaths_interpreterArgs {c : Config} (hargs : ∀ arg ∈ c.args, ¬ IsSwitch arg) :
    Heap.includePaths c.interpreterArgs = c.includePaths ↔ c.PathsArrive := by
  have hprogram : ¬ IsSwitch (c.args.headD "") := by
    cases hc : c.args with
    | nil => decide
    | cons program args => exact hargs program (hc ▸ .head _)
  rw [interpreterArgs, Heap.includePaths_cons hprogram]
  exact Heap.includePaths_switches (fun arg harg => hargs arg (List.mem_of_mem_tail harg)) c.includePaths

/-! ## Starts -/

variable {w w' : World} {s : SessionId} {setup : Setup} {h : Heap} {P : Heap → Prop}

theorem World.RunsOn.require {package : String} (hr : w.RunsOn s setup h)
    (hrun : (s.require package).run w = (.ok (), w')) :
    ∃ h', (Heap.require setup package).run h = (.ok (), h') ∧ w'.RunsOn s setup h' := by
  obtain ⟨outcome, w₁, hattempt, hrest⟩ := run_bind_eq_ok hrun
  rw [HostM.run_attempt] at hattempt
  cases hcross : (cross s "load" (.require package)).run w with
  | mk r w₂ =>
    rw [hcross] at hattempt
    cases hattempt
    rcases r with e | ⟨⟩
    · cases e with
      | runtime message value =>
        rw [run_bind_ok (HostM.run_release ..)] at hrest
        cases hrest
      | _ => cases hrest
    · obtain ⟨answer, h', hanswer, -, rfl⟩ := hr.crossed hcross
      cases hrest
      exact ⟨h', hanswer, hr.put h' _⟩

/-- What every package keeps that comes in is so when all have come in. -/
theorem World.RunsOn.preload (hkeeps : ∀ {h h' package}, P h →
      (Heap.require setup package).run h = (.ok (), h') → P h') :
    ∀ {packages : List String} {w : World} {h : Heap}, w.RunsOn s setup h → P h →
      (s.preload packages).run w = (.ok (), w') → ∃ h', w'.RunsOn s setup h' ∧ P h'
  | [], _, h, hr, hh, hrun => by
    cases hrun
    exact ⟨h, hr, hh⟩
  | package :: packages, w, h, hr, hh, hrun => by
    obtain ⟨outcome, w₁, hattempt, hrest⟩ := run_bind_eq_ok hrun
    rw [HostM.run_attempt] at hattempt
    cases hrequire : (s.require package).run w with
    | mk r w₂ =>
      rw [hrequire] at hattempt
      cases hattempt
      rcases r with e | ⟨⟩
      · obtain ⟨_, _, -, hrest⟩ := run_bind_eq_ok hrest
        cases hrest
      · obtain ⟨h₁, hanswer, hr₁⟩ := hr.require hrequire
        exact hr₁.preload hkeeps (hkeeps hh hanswer) hrest

theorem run_takeClaim_ok (hrun : s.takeClaim.run w = (.ok (), w')) :
    w'.sessions.size = w.sessions.size ∧ (w'.session s).engine = (w.session s).engine ∧
      (w'.session s).config = (w.session s).config := by
  rw [run_takeClaim] at hrun
  split at hrun
  · cases hrun
    exact ⟨rfl, rfl, rfl⟩
  · split at hrun <;> cases hrun
    exact ⟨World.size_update .., World.session_update_keeps Session.engine fun _ => rfl,
      World.session_update_keeps Session.config fun _ => rfl⟩

/-- What is so when the interpreter has booted, and what every package keeps that comes in, is so when the
session has started. -/
theorem run_start_ok (hlt : s.index < w.sessions.size) (hstage : (w.session s).stage = .uninitialized)
    (hengine : (w.session s).engine = ⟨⟨setup, none⟩, []⟩)
    (hboot : P ((Heap.boot setup (w.session s).config.interpreterArgs).run .initial).2)
    (hkeeps : ∀ {h h' package}, P h → (Heap.require setup package).run h = (.ok (), h') → P h')
    (hrun : s.start.run w = (.ok (), w')) : ∃ h, w'.RunsOn s setup h ∧ P h := by
  rw [run_start_uninitialized hstage] at hrun
  obtain ⟨_, w₁, hclaim, hrun⟩ := run_bind_eq_ok hrun
  obtain ⟨_, w₂, hconstruct, hrun⟩ := run_bind_eq_ok hrun
  obtain ⟨hsize, hengine₁, hconfig₁⟩ := run_takeClaim_ok hclaim
  rw [hengine] at hengine₁
  obtain ⟨h, hbooted, -⟩ := run_boot setup (w.session s).config.interpreterArgs
  rw [hbooted] at hboot
  obtain rfl : (w₁.put s h 0).setStage s .initialized = w₂ := by
    have hconstruct' := run_construct rfl (by rw [hengine₁]) (by rw [hengine₁]) (by rwa [hengine₁, hconfig₁])
    rw [hconstruct'] at hconstruct
    cases hconstruct
    rfl
  have hr : ((w₁.put s h 0).setStage s .initialized).RunsOn s setup h := by
    constructor <;> rw [session_started (hsize ▸ hlt)]
    dsimp only
    rw [hengine₁]
  exact hr.preload hkeeps hboot hrun

theorem includes_start (hlt : s.index < w.sessions.size) (hstage : (w.session s).stage = .uninitialized)
    (hengine : (w.session s).engine = ⟨⟨setup, none⟩, []⟩) (hrun : s.start.run w = (.ok (), w')) :
    ∃ h a, w'.RunsOn s setup h ∧
      h.Includes a (Heap.includePaths (w.session s).config.interpreterArgs) := by
  obtain ⟨a, hboot⟩ := Heap.equipped_boot setup (w.session s).config.interpreterArgs
  obtain ⟨h, hr, he⟩ := run_start_ok hlt hstage hengine hboot (fun he hrun => he.require hrun) hrun
  exact ⟨h, a, hr, he.2⟩

theorem Heap.Includes.named? {a : CellId} {paths : List String} (hi : h.Includes a paths) :
    h.named? "@INC" = some a := by
  obtain ⟨hslot, hname⟩ : (Name.parseGlobal "@INC").1 = .array ∧
      Name.qualify (Name.parseGlobal "@INC").2 = Name.inc := by decide
  rw [Heap.named?, hslot, hname, hi.named]

theorem Heap.Includes.lists_iff {a : CellId} {paths : List String} (hi : h.Includes a paths)
    (texts : List String) : h.Lists a (texts.map .text) ↔ paths = texts := by
  constructor
  · intro hl
    exact (List.map_inj_right fun _ _ => Value.text.inj).1 (hi.lists.unique hl)
  · rintro rfl
    exact hi.lists

/-- A session that starts on a command line without switches has in `@INC` what the interpreter reads off the
command line that it is given, whatever packages come in. That is the paths of the configuration, in their
order and nothing else, if and only if no empty path takes an argument that is not empty. -/
theorem include_paths_arrive (hlt : s.index < w.sessions.size)
    (hstage : (w.session s).stage = .uninitialized) (hengine : (w.session s).engine = ⟨⟨setup, none⟩, []⟩)
    (hargs : ∀ arg ∈ (w.session s).config.args, ¬ Config.IsSwitch arg)
    (hrun : s.start.run w = (.ok (), w')) :
    ∃ h a, w'.RunsOn s setup h ∧ h.named? "@INC" = some a ∧
      h.Lists a ((Heap.includePaths (w.session s).config.interpreterArgs).map .text) ∧
      (h.Lists a ((w.session s).config.includePaths.map .text) ↔ (w.session s).config.PathsArrive) := by
  obtain ⟨h, a, hr, hi⟩ := includes_start hlt hstage hengine hrun
  refine ⟨h, a, hr, hi.named?, hi.lists, ?_⟩
  rw [hi.lists_iff]
  exact Config.includePaths_interpreterArgs hargs

/-- A package that names its parents and has variables of its own, one of them called as the include path. -/
def wellNamed : Package :=
  { name := "Inc", scalars := [("INC", .text "no path")], isa := ["Base"] }

/-- A world with one session, which loads a package when it starts. -/
def includingWorld (args paths : List String) : World :=
  { sessions := #[{ engine := ⟨⟨Setup.provide {} wellNamed, none⟩, []⟩
                    config := { args, includePaths := paths, preload := ["Inc"] } }] }

theorem include_paths_arrive_odd : ∃ w' h a,
    (SessionId.start ⟨0⟩).run (includingWorld ["prog", "", "x"] ["my lib", "-I", "-Ilib", ""]) = (.ok (), w') ∧
      w'.RunsOn ⟨0⟩ (Setup.provide {} wellNamed) h ∧ h.named? "@INC" = some a ∧
      h.Lists a [.text "my lib", .text "-I", .text "-Ilib", .text ""] := by
  have hok : ((SessionId.start ⟨0⟩).run
      (includingWorld ["prog", "", "x"] ["my lib", "-I", "-Ilib", ""])).1.toOption = some () := by
    decide +kernel
  obtain ⟨w', hrun⟩ := exists_run_of_toOption hok
  obtain ⟨h, a, hr, hnamed, -, hiff⟩ := include_paths_arrive (by decide) rfl rfl (by decide) hrun
  exact ⟨w', h, a, hrun, hr, hnamed, hiff.2 (by decide)⟩

/-- An empty path takes the place of the first argument of the program. -/
theorem argument_as_include_path : ∃ w' h a,
    (SessionId.start ⟨0⟩).run (includingWorld ["", "-e", "0"] [""]) = (.ok (), w') ∧
      w'.RunsOn ⟨0⟩ (Setup.provide {} wellNamed) h ∧ h.named? "@INC" = some a ∧
      h.Lists a [.text "-e"] ∧ ¬ h.Lists a [.text ""] := by
  have hok : ((SessionId.start ⟨0⟩).run (includingWorld ["", "-e", "0"] [""])).1.toOption = some () := by
    decide +kernel
  obtain ⟨w', hrun⟩ := exists_run_of_toOption hok
  obtain ⟨h, a, hr, hi⟩ := includes_start (by decide) rfl rfl hrun
  have hread : Heap.includePaths
      ((includingWorld ["", "-e", "0"] [""]).session ⟨0⟩).config.interpreterArgs = ["-e"] := by decide
  rw [hread] at hi
  have hlists (path : String) : h.Lists a [.text path] ↔ ["-e"] = [path] := hi.lists_iff [path]
  exact ⟨w', h, a, hrun, hr, hi.named?, (hlists "-e").2 rfl, fun hl => absurd ((hlists "").1 hl) (by decide)⟩

end Embedding
