import Embedding.Proofs.Console.Steps
import Embedding.Proofs.Host.Keeping

/-!
# The life of a session

From one console to a later one, a session goes on from stage to stage and never back. Its interpreter
is there while it runs, and ends no later than what keeps the session alive.
-/

namespace Embedding

open Console

variable {log : List Event} {w : World} {hs : List Handle} {s : SessionId} {engine : Engine}
  {steps more : List Step}

/-! ## Stages -/

/-- How far a session has come. -/
def Stage.rank : Stage → Nat
  | .uninitialized => 0
  | .initialized => 1
  | .shutDown => 2

theorem Stage.rank_le : ∀ stage : Stage, stage.rank ≤ rank .shutDown
  | .uninitialized | .initialized | .shutDown => by decide

theorem World.rank_shutDown {n : Nat} (t : SessionId) (h : n ≤ (w.session s).stage.rank) :
    n ≤ ((w.shutDown t).session s).stage.rank := by
  by_cases ht : s = t
  · subst ht
    by_cases hlt : s.index < w.sessions.size
    · rw [World.stage_shutDown hlt]
      exact Nat.le_trans h (Stage.rank_le _)
    · rwa [World.session_out (by rwa [World.size_shutDown]), ← World.session_out hlt]
  · rwa [World.session_shutDown_of_ne ht]

theorem steady_rank (s : SessionId) (n : Nat) : Steady fun w => n ≤ (w.session s).stage.rank where
  ask request _ h := by rwa [World.stage_ask]
  count t n h := by
    rw [World.stage_update]
    · exact h
    · exact fun _ => rfl
  shutDownUnkept t h := by
    unfold World.shutDownUnkept
    split
    · exact h
    · exact World.rank_shutDown t h

theorem lasting_rank (s : SessionId) (n : Nat) : Lasting fun w => n ≤ (w.session s).stage.rank where
  toSteady := steady_rank s n
  owners t owned namespaces h := by
    rw [World.stage_update]
    · exact h
    · exact fun _ => rfl
  shutDown t h := World.rank_shutDown t h
  start {w} t h := by
    by_cases ht : s = t
    · subst ht
      by_cases hstage : (w.session s).stage = .uninitialized
      -- where the session had not even begun, no stage is a step back
      · rw [hstage] at h
        exact Nat.le_trans h (Nat.zero_le _)
      · rwa [run_start_started hstage]
    · exact (steady_rank s n).start_of_ne ht (fun hsession h => by rwa [hsession]) h

theorem World.rank_create {n : Nat} (engine : Engine) (config : Config)
    (h : n ≤ (w.session s).stage.rank) : n ≤ ((w.create engine config).session s).stage.rank := by
  rw [World.session_create]
  split
  · next hs =>
    rw [World.session_out (by omega)] at h
    exact h
  · exact h

/-! ## Whole lives -/

/-- An engine whose interpreter is not there yet. -/
def Engine.Idle (engine : Engine) : Prop := engine.interpreter.isConstructed = false

theorem Going.create (hg : Going log w hs) (hengine : engine.Idle) (config : Config) :
    Going log (w.create engine config) hs := by
  refine ⟨hg.1.next [] fun h => h.create engine config hengine, fun t ht hstage => ?_⟩
  rw [World.session_create] at hstage ⊢
  split
  · rfl
  · next hne =>
    rw [if_neg hne] at hstage
    rw [World.create, Array.size_push] at ht
    exact hg.2 t (by omega) hstage

theorem retains_going : Retains (Going log) := fun {w _ h} hg hh =>
  ⟨hg.1.next (w.counting h) fun hhistory => hhistory.retain hh, receptive_kept.retain h hg.2⟩

/-- What becomes of a session and of its interpreter from one console to a later one. -/
structure Console.Life (c c' : Console) (s : SessionId) : Prop where
  /-- The session has not gone back. -/
  forward : (c.world.session s).stage.rank ≤ (c'.world.session s).stage.rank
  /-- The interpreter is there exactly while the session runs. -/
  constructed : (c'.world.session s).engine.interpreter.isConstructed = true ↔
    (c'.world.session s).stage = .initialized
  /-- There are no handles in cells of an interpreter that is still to be constructed. -/
  idle : (c'.world.session s).stage = .uninitialized →
    (c'.world.session s).liveHandles = 0 ∧ ∀ h ∈ c'.handles, h.session ≠ s
  /-- A session that nothing keeps alive is shut down. -/
  unkept : s.index < c'.world.sessions.size → (c'.world.session s).isKept = false →
    (c'.world.session s).stage = .shutDown
  /-- All calls since then are calls of a history. -/
  goesOn : ∀ log, History c.world c.handles log →
    ∃ later, History c'.world c'.handles (later ++ log)
  /-- Constructions and destructions take turns, and questions are asked in between. -/
  inTurn : ∀ log, History c'.world c'.handles log →
    InTurn s ((c'.world.session s).stage = .initialized) log
  /-- Cells are named to the instance only that gave them out. -/
  named : ∀ log, History c'.world c'.handles log → NamesGiven log

theorem going_foldl {c : Console} (hidle : ∀ step ∈ more, step.Creates Engine.Idle)
    (hfixable : c.fixable = []) (hg : Going log c.world c.handles) :
    Going log (more.foldl Step.run c).world (more.foldl Step.run c).handles :=
  (books_going.foldl_ends retains_going (fun config hengine hg => hg.create hengine config)
    more hidle hfixable hg).2

theorem rank_foldl {c : Console} (s : SessionId) (more : List Step) (hfixable : c.fixable = []) :
    (c.world.session s).stage.rank ≤ ((more.foldl Step.run c).world.session s).stage.rank :=
  ((lasting_rank s (c.world.session s).stage.rank).foldl World.rank_create more hfixable
    (Nat.le_refl _)).2

theorem going_after (hidle : ∀ step ∈ steps, step.Creates Engine.Idle) :
    (after steps).fixable = [] ∧ Going [] (after steps).world (after steps).handles :=
  books_going.after_ends retains_going (fun config hengine hg => hg.create hengine config) hidle
    ⟨⟨[], .empty⟩, nofun⟩

/-- Whatever a console does with sessions on interpreters that are not there yet, each session has a
life in one direction, and its interpreter with it. -/
theorem lifecycle (hidle : ∀ step ∈ steps ++ more, step.Creates Engine.Idle) (s : SessionId) :
    Life (after steps) (after (steps ++ more)) s := by
  obtain ⟨hfixable, -, hkept⟩ :=
    going_after fun step hstep => hidle step (List.mem_append_left more hstep)
  obtain ⟨-, hextended, hkept'⟩ := going_after hidle
  have horderly := hextended.inOrder
  refine ⟨?_, (horderly s).constructed, fun hstage => ⟨(horderly s).idle hstage, fun h hh hs => ?_⟩,
    fun hlt hunkept => ?_, fun log hhistory => ?_, fun log hhistory => hhistory.inOrder.calls.inTurn s,
    fun log hhistory => hhistory.inOrder.calls.named⟩
  · rw [after_append]
    exact rank_foldl s more hfixable
  · exact horderly.stage_ne hh (hs ▸ hstage)
  -- what is not shut down is kept, by `Going`
  · refine Decidable.byContradiction fun hstage => ?_
    rw [hkept' s hlt hstage] at hunkept
    cases hunkept
  -- the history behind the first console is where the steps that follow go on from
  · rw [after_append]
    exact (going_foldl (fun step hstep => hidle step (List.mem_append_right steps hstep)) hfixable
      ⟨⟨[], hhistory⟩, hkept⟩).1

/-- A session whose first package is not there, and one that is used. -/
def openings : List Step := [
  .create { interpreter := {} } { preload := ["Missing"] },
  .create { interpreter := {} } {},
  .line { command := .session ⟨0⟩ .start },
  .line { command := .session ⟨1⟩ (.newArray [.int 1]), into := some "a" }]

/-- The owners go before the last handle. -/
def closings : List Step := [
  .line { command := .session ⟨0⟩ .disown },
  .line { command := .session ⟨1⟩ .disown },
  .line { command := .drop "a" }]

theorem lifecycle_closings : (∀ step ∈ openings ++ closings, step.Creates Engine.Idle) ∧
    ((after openings).world.session ⟨0⟩).stage = .uninitialized ∧
    ((after openings).world.session ⟨1⟩).stage = .initialized ∧
    ((after (openings ++ closings)).world.session ⟨0⟩).stage = .shutDown ∧
    ((after (openings ++ closings)).world.session ⟨1⟩).stage = .shutDown ∧
    Life (after openings) (after (openings ++ closings)) ⟨1⟩ := by
  have hidle : ∀ step ∈ openings ++ closings, step.Creates Engine.Idle := by
    simp [openings, closings, Step.Creates, Engine.Idle, Interpreter.isConstructed]
  exact ⟨hidle, by decide +kernel, by decide +kernel, by decide +kernel, by decide +kernel,
    lifecycle hidle ⟨1⟩⟩

end Embedding
