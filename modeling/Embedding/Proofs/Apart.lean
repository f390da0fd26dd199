import Embedding.Proofs.Host.Bystanders
import Embedding.Proofs.Host.Handing
import Embedding.Proofs.Lifecycle

/-!
# Sessions that are apart

Sessions share a host, and values of a host may have views of several sessions in them. Each interpreter
is told of its own cells only. What is done to one session with views of another one in hand leaves that
one as it was, as soon as what came of it is dropped.
-/

namespace Embedding

open Console Heap

variable {origin w w' : World} {Good : SessionId → Heap → List CellId → Prop} {hs moved clones lent σ : List Handle}
  {s t : SessionId} {x : Session} {alone : Bool} {g : Heap} {lost C : List CellId} {engine : Engine}
  {steps : List Step} {α : Type} {d : Deal α}

/-! ## Worlds in the hands of a host -/

/-- The sessions count the handles of the host. Where it has any, no error is pending. -/
def World.Handled (w : World) (hs : List Handle) : Prop :=
  Balanced w (fun _ h σ => h.Leaky σ ∧ (σ ≠ [] → h.Quiet)) w hs

/-- A balance does not depend on how the sessions began. -/
theorem Balanced.refound (hI : Balanced origin Good w hs) : Balanced w Good w hs := fun s =>
  { hI s with setup := rfl, config := rfl }

theorem primitives_handled (origin : World) :
    Primitives Anything (Balanced origin fun _ h σ => h.Leaky σ ∧ (σ ≠ [] → h.Quiet)) :=
  primitives_balanced (fun s => discipline_handled (origin.session s))
    fun _ _ c σ hgood => ⟨hgood.1.lose, fun _ => hgood.2 (List.cons_ne_nil c σ)⟩

theorem books_handled : Books World.Handled where
  perm {w _ _} hw hp := (primitives_handled w).perm hw hp
  clone {w _ _} hw hh := ((primitives_handled w).clone hw hh).refound
  release {w _ _} hw := ((primitives_handled w).release hw).refound
  exchange {w _ _ _ _ _ _} request _ hstage hplain hcells hsub hw hrun :=
    ((primitives_handled w).exchange request trivial hstage hplain hcells hsub hw hrun).refound
  start {w _ _} _ hw := ((primitives_handled w).start inferInstance hw).mono fun _ _ => Balanced.refound
  shutDown {w _ _} _ hw := ((primitives_handled w).shutDown inferInstance hw).refound
  disown {w _ _} _ hw := ((primitives_handled w).disown inferInstance hw).refound
  bindNamespace {w _ _} _ hw := ((primitives_handled w).bindNamespace inferInstance hw).refound
  unbindNamespace {w _ _} _ hw := ((primitives_handled w).unbindNamespace inferInstance hw).refound

theorem retains_handled : Retains World.Handled := fun {w _ _} hw hh =>
  ((primitives_handled w).retain hw hh).refound

theorem World.Handled.create (hw : w.Handled hs) (hidle : engine.Idle) (hfixed : engine.fixed = [])
    (config : Config) : (w.create engine config).Handled hs := by
  intro s
  rw [World.session_create]
  split
  · next hlast =>
    have hcount := (hw s).count
    rw [World.session_out (by omega)] at hcount
    have hnone : cellsOf s hs = [] := List.length_eq_zero_iff.1 hcount.symm
    have hheap : engine.interpreter.heap = none := by
      simpa [Engine.Idle, Interpreter.isConstructed] using hidle
    rw [hnone]
    exact ⟨rfl, hfixed, rfl, rfl, fun _ => ⟨rfl, hheap⟩, Stage.noConfusion⟩
  · exact hw s

theorem handled_after (hidle : ∀ step ∈ steps, step.Creates Engine.Idle)
    (hfixed : ∀ step ∈ steps, step.Creates fun engine => engine.fixed = []) :
    (after steps).world.Handled (after steps).handles := by
  refine (books_handled.after_ends (P := fun engine => engine.Idle ∧ engine.fixed = []) retains_handled
    (fun config hnew hw => hw.create hnew.1 hnew.2 config) (fun step hstep => ?_) fun s => ?_).2
  · have hidle := hidle step hstep
    have hfixed := hfixed step hstep
    cases step with
    | create engine config => exact ⟨hidle, hfixed⟩
    | line _ => trivial
  · rw [World.session_out (Nat.not_lt_zero _)]
    exact ⟨rfl, rfl, rfl, rfl, fun _ => ⟨rfl, rfl⟩, nofun⟩

/-! ## Sessions that are spared -/

/-- The session has come to the same in two worlds, with the same cells, contents and counts, but for
places of iterations over some hashes. -/
structure World.Spares (C : List CellId) (t : SessionId) (w w' : World) : Prop where
  stage : (w'.session t).stage = (w.session t).stage
  liveHandles : (w'.session t).liveHandles = (w.session t).liveHandles
  heaps : (w.session t).stage = .initialized → ∃ h h', (w.session t).engine.interpreter.heap = some h ∧
    (w'.session t).engine.interpreter.heap = some h' ∧ h.Spares C h'

theorem World.Handled.bystander (hw : w.Handled hs) (t : SessionId) (C : List CellId) : ∃ g lost,
    ((w.session t).stage = .initialized → g.Sound (lost ++ cellsOf t hs)) ∧
      Bystander w t (w.session t) (decide (cellsOf t hs = [])) C g lost w hs := by
  by_cases hstage : (w.session t).stage = .initialized
  · obtain ⟨g, hr, ⟨lost, hg⟩, hq⟩ := hw.runsOn hstage
    refine ⟨g, lost, fun _ => hg, hw.mono fun u h hheap hgood => ⟨hgood.1, ?_⟩, w.upheld_self t hs⟩
    rintro rfl
    rw [hr.engine] at hheap
    cases hheap
    exact ⟨visited_refl hg.exact C, hg, hq⟩
  · refine ⟨.initial, [], fun h => absurd h hstage, fun u => ?_, w.upheld_self t hs⟩
    refine { hw u with running := fun hrunning => ?_ }
    obtain ⟨h, hheap, hl, -⟩ := (hw u).running hrunning
    exact ⟨h, hheap, hl, fun e => absurd (e ▸ hrunning) hstage⟩

theorem World.Upheld.stage_eq_initialized (hw : w.Upheld t x alone hs)
    (hstage : (w.session t).stage = .initialized) : x.stage = .initialized := by
  rw [hw.stage] at hstage
  cases hx : x.stage with
  | initialized => rfl
  | uninitialized | shutDown =>
    rw [hx] at hstage
    cases hstage

theorem Bystander.spares (hw : Bystander origin t x alone C g lost w σ)
    (hw' : Bystander origin t x alone C g lost w' σ)
    (hg : x.stage = .initialized → g.Sound (lost ++ cellsOf t hs)) (hσ : σ ⊆ hs) :
    w.Spares C t w' := by
  have hsame : (w'.session t).stage = (w.session t).stage :=
    hw'.upheld.stage.trans hw.upheld.stage.symm
  refine ⟨hsame, (hw'.balanced t).count.trans (hw.balanced t).count.symm, fun hstage => ?_⟩
  obtain ⟨h, hheap, -, hr⟩ := (hw.balanced t).running hstage
  obtain ⟨h', hheap', -, hr'⟩ := (hw'.balanced t).running (hsame.trans hstage)
  have hg := hg (hw.upheld.stage_eq_initialized hstage)
  have hlive (c : CellId) (hc : c ∈ lost ++ cellsOf t σ) : g.isLive c := by
    refine hg.isLive (List.mem_append.2 ((List.mem_append.1 hc).imp_right fun hc => ?_))
    obtain ⟨a, ha, rfl⟩ := List.mem_map.1 hc
    obtain ⟨ha, ht⟩ := List.mem_filter.1 ha
    exact of_decide_eq_true ht ▸ mem_cellsOf (hσ ha)
  exact ⟨h, h', hheap, hheap', (hr rfl).visited.spares hg.exact hlive (hr rfl).sound.exact
    (hr' rfl).visited (hr' rfl).sound.exact⟩

/-- A host gives up the handles `moved` and makes the handles `clones`. The operation takes some of these
over, and the others are lent to it. When it is over and all is dropped, another session is as it is
without the operation, had the host just dropped what it gave up. -/
theorem Handing.spares (hhanding : Handing s d) (hne : s ≠ t) (hw : w.Handled hs) (hclones : clones ⊆ hs)
    (hkept : hs.Perm (moved ++ σ)) (htaken : (clones ++ moved).Perm (d.taken ++ lent))
    (hborrowed : d.borrowed ⊆ lent ++ σ) : Ends d.run (w.cloneAll clones) fun r w' =>
      (w.releaseAll moved).Spares (cellsOf t d.walked) t
        (w'.releaseAll (hostStakes d.given r ++ lent)) := by
  obtain ⟨g, lost, hg, hI⟩ := hw.bystander t (cellsOf t d.walked)
  have : Free (Only t (visiting (cellsOf t d.walked))) s := free_of_ne hne
  have hbefore := dealing_bystander.releaseAll moved (dealing_bystander.perm hI hkept)
  have hcloned := dealing_bystander.cloneAll clones hclones hI
  have hhanded : (clones ++ hs).Perm (d.taken ++ (lent ++ σ)) := by
    have hall := (hkept.append_left clones).trans (List.append_assoc clones moved σ ▸ htaken.append_right σ)
    rwa [List.append_assoc] at hall
  have hafter := hhanding.accounts affairs_bystander inferInstance _ _ hborrowed
    (dealing_bystander.perm hcloned hhanded)
  refine hafter.mono fun r w' hend => ?_
  rw [← List.append_assoc] at hend
  exact hbefore.spares (dealing_bystander.releaseAll _ hend) hg
    (List.Subset.trans (List.subset_append_right moved σ) hkept.symm.subset)

/-! ## Sessions of a console -/

/-- Interpreters are told of cells only that they have given out. -/
def Console.NamesOwn (c : Console) : Prop :=
  (∃ log, History c.world c.handles log) ∧ ∀ log, History c.world c.handles log → NamesGiven log

/-- What is done to a session with values in hand spares the others, whichever handles the host gives up,
clones and lends for that. -/
def Console.Separates (c : Console) : Prop :=
  ∀ ⦃s t : SessionId⦄ ⦃α : Type⦄ ⦃d : Deal α⦄ ⦃moved clones lent σ : List Handle⦄, Handing s d → s ≠ t →
    clones ⊆ c.handles → c.handles.Perm (moved ++ σ) → (clones ++ moved).Perm (d.taken ++ lent) →
      d.borrowed ⊆ lent ++ σ → Ends d.run (c.world.cloneAll clones) fun r w =>
        (c.world.releaseAll moved).Spares (cellsOf t d.walked) t
          (w.releaseAll (hostStakes d.given r ++ lent))

/-- The main statement, for consoles with any number of sessions that have done anything. An engine with
fixed answers does not count what it is told to count, so only the others are spared. -/
theorem sessions_apart (hidle : ∀ step ∈ steps, step.Creates Engine.Idle) :
    (after steps).NamesOwn ∧
      ((∀ step ∈ steps, step.Creates fun engine => engine.fixed = []) → (after steps).Separates) := by
  refine ⟨⟨?_, fun log hhistory => hhistory.inOrder.calls.named⟩, fun hfixed => ?_⟩
  · obtain ⟨-, ⟨later, hhistory⟩, -⟩ := going_after hidle
    exact ⟨_, hhistory⟩
  · intro s t α d moved clones lent σ hhanding hne
    exact hhanding.spares hne (handled_after hidle hfixed)

theorem Console.Separates.copy {c : Console} {view : HashView} {name : String} (hc : c.Separates)
    (hne : s ≠ view.cell.session) (hmem : view.cell ∈ c.handles)
    (hslot : (Name.parseGlobal name).1 = .hash)
    (hrun : (s.setGlobal name (.hash view)).run c.world = (.ok (), w)) :
    c.world.Spares [view.cell.cell] view.cell.session w := by
  have hkept : c.handles.Perm ([] ++ c.handles) := .refl _
  have hborrowed : (Value.hash view).handles ⊆ [] ++ c.handles :=
    List.cons_subset.2 ⟨hmem, List.nil_subset _⟩
  have hends := hc (.setGlobal s name (.hash view)) hne (List.nil_subset _) hkept (.refl []) hborrowed
  have hwalked : cellsOf view.cell.session ((Value.hash view).walked (Name.parseGlobal name).1) =
      [view.cell.cell] := by
    rw [hslot]
    exact cellsOf_cons_self view.cell []
  have hspares := hends.of_run hrun
  dsimp only at hspares
  rw [hwalked] at hspares
  exact hspares

/-- Two sessions that run, with a hash in the second one. -/
def mixing : List Step := [
  .create { interpreter := {} } {},
  .create { interpreter := {} } {},
  .line { command := .session ⟨0⟩ .start },
  .line { command := .session ⟨1⟩ (.newHash [("k", .int 2)]), into := some "h" }]

def mixed : HashView := ⟨⟨⟨1⟩, ⟨5⟩⟩⟩

theorem sessions_apart_mixing : (∀ step ∈ mixing, step.Creates Engine.Idle) ∧
    (∀ step ∈ mixing, step.Creates fun engine => engine.fixed = []) ∧ (after mixing).NamesOwn ∧
    ∃ w, ((⟨0⟩ : SessionId).setGlobal "%x" (.hash mixed)).run (after mixing).world = (.ok (), w) ∧
      (after mixing).world.Spares [⟨5⟩] ⟨1⟩ w := by
  have hidle : ∀ step ∈ mixing, step.Creates Engine.Idle := by
    simp [mixing, Step.Creates, Engine.Idle, Interpreter.isConstructed]
  have hfixed : ∀ step ∈ mixing, step.Creates fun engine => engine.fixed = [] := by
    simp [mixing, Step.Creates]
  obtain ⟨hnames, hseparates⟩ := sessions_apart hidle
  have hmem : mixed.cell ∈ (after mixing).handles := by decide +kernel
  have hok : (((⟨0⟩ : SessionId).setGlobal "%x" (.hash mixed)).run (after mixing).world).1.toOption =
    some () := by decide +kernel
  have hne : (⟨0⟩ : SessionId) ≠ mixed.cell.session := by decide
  have hslot : (Name.parseGlobal "%x").1 = .hash := by decide +kernel
  replace hseparates := hseparates hfixed
  -- The state of the console is left as it is, so as not to be computed again.
  generalize after mixing = c at hnames hseparates hmem hok ⊢
  cases hrun : ((⟨0⟩ : SessionId).setGlobal "%x" (.hash mixed)).run c.world with
  | mk r w =>
    rw [hrun] at hok
    obtain rfl := eq_ok_of_toOption hok
    exact ⟨hidle, hfixed, hnames, w, rfl, hseparates.copy hne hmem hslot hrun⟩

end Embedding
