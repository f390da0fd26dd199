import Embedding.Proofs.Console.Runs
import Embedding.Proofs.Host.Reached
import Embedding.Proofs.Host.Reading

/-!
# No error is swallowed or put down to another operation

A crossing succeeds only if the interpreter did and left no error behind, and otherwise it reports
the very error that it met. Between crossings no error is pending, provided that none is pending
when an interpreter has started.
-/

namespace Embedding

open Console

variable {origin w w' w₂ : World} {hs : List Handle} {s : SessionId} {shape : Shape}
  {operation : String} {request : Request Handle shape} {setup : Setup} {h h₁ h₂ : Heap}
  {σ : List CellId} {r : Except Fault (Answer CellId shape)}

/-! ## Heaps of running sessions -/

/-- The heap is sound for the stakes and for others that the host has lost sight of. -/
def Heap.Leaky (h : Heap) (σ : List CellId) : Prop := ∃ lost, h.Sound (lost ++ σ)

theorem Heap.Leaky.lose {c : CellId} (hl : h.Leaky (c :: σ)) : h.Leaky σ := by
  obtain ⟨lost, hs⟩ := hl
  exact ⟨lost ++ [c], by simpa using hs⟩

theorem released?_of_isPlain {request : Request CellId shape} (hplain : request.isPlain = true) :
    request.released? = none := by cases request <;> first | rfl | cases hplain

theorem due_of_isPlain {request : Request CellId shape} (hplain : request.isPlain = true) :
    request.due = Answer.stakes := by cases request <;> first | rfl | cases hplain

/-- Whatever a request does, a look at the pending error leaves a quiet heap behind. -/
theorem Heap.Leaky.exchange (hl : h.Leaky σ) {request : Request CellId shape}
    (hplain : request.isPlain = true) (hrun : (answer setup request).run h = (r, h₁)) :
    ∃ o h₂, takeError.run h₁ = (.ok o, h₂) ∧
      h₂.Leaky (o.toList ++ (resultStakes Answer.stakes r ++ σ)) ∧ h₂.Quiet := by
  obtain ⟨lost, hs⟩ := hl
  obtain ⟨-, leak, hs₁, -⟩ :=
    (tracks_answer setup request (released?_of_isPlain hplain) h _ hs).of_run hrun
  rw [due_of_isPlain hplain] at hs₁
  obtain ⟨o, h₂, htake, hs₂, hq, -⟩ := quiet_takeError hs₁
  refine ⟨o, h₂, htake, ⟨leak ++ lost, hs₂.perm (List.perm_iff_count.2 fun c => ?_)⟩, hq⟩
  simp only [List.count_append]
  omega

theorem Heap.Leaky.retain {c : CellId} (hl : h.Leaky σ) (hc : c ∈ σ) :
    ((Heap.retain c).run h).2.Leaky (c :: σ) := by
  obtain ⟨lost, hs⟩ := hl
  obtain ⟨_, h₁, hrun, -, hs₁⟩ :=
    Heap.gives_retain (hs.isLive (List.mem_append_right lost hc)) _ hs
  rw [hrun]
  have hmiddle : (c :: (lost ++ σ)).Perm (lost ++ c :: σ) := List.perm_middle.symm
  exact ⟨lost, hs₁.perm hmiddle⟩

theorem Heap.Leaky.release {c : CellId} (hl : h.Leaky (c :: σ)) :
    ((Heap.release c).run h).2.Leaky σ := by
  obtain ⟨lost, hs⟩ := hl
  obtain ⟨_, h₁, hrun, -, hs₁⟩ := Heap.gives_release h c _ (hs.perm List.perm_middle)
  rw [hrun]
  exact ⟨lost, hs₁⟩

theorem discipline_leaky (origin : Session) : Discipline origin Heap.Leaky where
  perm := fun ⟨lost, hs⟩ hp => ⟨lost, hs.perm (hp.append_left lost)⟩
  boot {h} hboot := by
    obtain ⟨_, h', hrun, -, hs⟩ := Heap.gives_boot .initial origin.engine.interpreter.setup
      origin.config.interpreterArgs [] Heap.sound_initial
    rw [hrun] at hboot
    cases hboot
    exact ⟨[], hs⟩
  cross request _ hl hplain _ hrun := by
    obtain ⟨o, h₂, htake, hl₂, -⟩ := hl.exchange hplain hrun
    exact ⟨o, h₂, htake, hl₂⟩
  retain hl hc := hl.retain hc
  release hl := hl.release

/-- The interpreter of the session starts without leaving an error pending. -/
def Session.StartsQuietly (origin : Session) : Prop :=
  ∀ h, (Heap.boot origin.engine.interpreter.setup origin.config.interpreterArgs).run .initial =
    (.ok (), h) → ¬ h.Pending

theorem discipline_quiet {origin : Session} (hquiet : origin.StartsQuietly) :
    Discipline origin fun h σ => h.Leaky σ ∧ h.Quiet where
  perm := fun ⟨hl, hq⟩ hp => ⟨(discipline_leaky origin).perm hl hp, hq⟩
  boot {h} hboot := by
    have hl := (discipline_leaky origin).boot hboot
    obtain ⟨lost, hs⟩ := hl
    exact ⟨⟨lost, hs⟩, hs.quiet_iff.2 (hquiet h hboot)⟩
  cross request _ hgood hplain _ hrun := by
    obtain ⟨o, h₂, htake, hl₂, hq₂⟩ := hgood.1.exchange hplain hrun
    exact ⟨o, h₂, htake, hl₂, hq₂⟩
  retain := fun ⟨hl, hq⟩ hc => ⟨hl.retain hc, hq.grows (Heap.retain_grows _ _)⟩
  release {h σ c} := fun ⟨hl, hq⟩ => by
    obtain ⟨lost, hs⟩ := hl.release
    exact ⟨⟨lost, hs⟩, hq.shrinks (Heap.release_shrinks h c) hs⟩

theorem Reached.leaky (hreach : Reached origin w hs) (hfresh : origin.Fresh) :
    Balanced origin (fun _ => Heap.Leaky) w hs :=
  hreach.holds (primitives_balanced (fun s => discipline_leaky (origin.session s))
    fun _ _ _ _ hl => hl.lose) hfresh.balanced

theorem Reached.quiet (hreach : Reached origin w hs) (hfresh : origin.Fresh)
    (hquiet : ∀ s, (origin.session s).StartsQuietly) :
    Balanced origin (fun _ h σ => h.Leaky σ ∧ h.Quiet) w hs :=
  hreach.holds (primitives_balanced (fun s => discipline_quiet (hquiet s))
    fun _ _ _ _ hgood => ⟨hgood.1.lose, hgood.2⟩) hfresh.balanced

/-! ## How crossings come out -/

theorem Heap.Sound.toBytes_ok {c : CellId} (hs : h.Sound σ) (hc : h.isLive c) :
    ∃ bytes, h.toBytes c = .ok bytes := by
  obtain ⟨x, hx⟩ := Heap.exists_cell hc
  have hdescribe {d : CellId} (hd : h.isLive d) : ∃ text, h.describe d = .ok text := by
    obtain ⟨y, hy⟩ := Heap.exists_cell hd
    exact ⟨_, by rw [Heap.describe, Heap.cell_ok hy]; rfl⟩
  unfold Heap.toBytes
  rw [Heap.cell_ok hx]
  dsimp only [bind, Except.bind]
  split
  · next s hcontent =>
    split
    · exact ⟨_, rfl⟩
    · exact ⟨_, rfl⟩
    · exact ⟨_, rfl⟩
    · next target _ _ _ hr =>
      have hchild : target ∈ x.content.children := by
        rw [hcontent, Content.children, hr]
        exact List.mem_singleton.2 rfl
      obtain ⟨text, htext⟩ := hdescribe (hs.isLive_child hx hchild)
      exact ⟨_, by rw [htext]; rfl⟩
    · exact ⟨_, rfl⟩
  · exact ⟨_, rfl⟩
  · obtain ⟨text, htext⟩ := hdescribe hc
    exact ⟨_, by rw [htext]; rfl⟩

/-- The result is the error that the value of a cell stands for: the text of the cell, without the
line feeds that end it, is the message, and what the cell reads as is the value. -/
def Raises (s : SessionId) (h : Heap) (w : World) (x : CellId)
    (result : Except HostError (Answer Handle shape)) : Prop :=
  ∃ bytes, h.toBytes x = .ok bytes ∧
    result = .error (.runtime (Blank.trimNewlines (Utf8.decodeLossy bytes))
      ((Handle.value ⟨s, x⟩).run w).1.toOption)

theorem Raises.not_ok {x : CellId} {result : Except HostError (Answer Handle shape)}
    (hx : Raises s h w x result) : ¬ ∃ answer, result = .ok answer := by
  obtain ⟨_, -, rfl⟩ := hx
  exact nofun

/-- How a crossing must come out. The interpreter ended the request with `r` and left the heap `h₁`;
when the pending error was taken out of it, that left the heap `h₂` and the world `w₂`. -/
structure Reports (s : SessionId) (operation : String) (r : Except Fault (Answer CellId shape))
    (h₁ h₂ : Heap) (w₂ : World) (result : Except HostError (Answer Handle shape)) : Prop where
  succeeds : (∃ answer, result = .ok answer) ↔ (∃ answer, r = .ok answer) ∧ ¬ h₁.Pending
  answers : ∀ answer, result = .ok answer → handled s r = .ok answer
  /-- Foreign code died. -/
  dies : ∀ x, r = .error (.died x) → Raises s h₂ w₂ x result
  /-- The request succeeded and left an error behind, whose value was copied. -/
  finds : ∀ answer c, r = .ok answer → h₁.errorCell = .ok c → h₁.isTrue c = .ok true →
    ∃ x, h₂.scalar x = h₁.scalar c ∧ Raises s h₂ w₂ x result
  fails : ∀ fault, r = .error fault → fault.diedValue? = none →
    result = .error (fault.toHostError operation)

theorem run_errorText_ok {e : Handle} {bytes : List UInt8} (hr : w.RunsOn e.session setup h)
    (hbytes : h.toBytes e.cell = .ok bytes) :
    (errorText e).run w = (.ok (Blank.trimNewlines (Utf8.decodeLossy bytes)), w) := by
  have hask : w.ask e.session (.toBytes e.cell) = (.ok bytes, w) := by
    have hanswer : (Heap.answer setup (.toBytes e.cell)).run h = (.ok bytes, h) :=
      congrArg (·, h) hbytes
    rw [hr.ask, hanswer, hr.put_self]
  rw [errorText, run_modifyGet_bind, hask]
  rfl

theorem run_failure {α : Type} {e : Handle} {released : List Handle} {bytes : List UInt8}
    (hr : w.RunsOn e.session setup h) (hs : h.Sound σ) (hq : h.Quiet)
    (hbytes : h.toBytes e.cell = .ok bytes) :
    ((do
      let failure ← runtimeError (valueWithin maxErrors) e
      HostM.release released
      throw failure : HostM α).run w).1 =
        .error (.runtime (Blank.trimNewlines (Utf8.decodeLossy bytes))
          (e.value.run w).1.toOption) := by
  have hcalm : w.Calm e.session := ⟨setup, h, σ, hr, hs, hq⟩
  have hread : (valueWithin maxErrors e).run w = e.value.run w := run_valueWithin 15 hcalm
  have hruntime : ∃ w', (runtimeError (valueWithin maxErrors) e).run w =
      (.ok (.runtime (Blank.trimNewlines (Utf8.decodeLossy bytes)) (e.value.run w).1.toOption), w') := by
    rw [runtimeError, run_bind_ok (run_errorText_ok hr hbytes),
      run_bind_ok (HostM.run_attempt _ w), hread]
    generalize e.value.run w = p
    obtain ⟨_ | _, w'⟩ := p <;> exact ⟨_, rfl⟩
  obtain ⟨w', hrun⟩ := hruntime
  rw [run_bind_ok hrun]
  rfl

theorem run_cross_reports (hr : w.RunsOn s setup h) (hl : h.Leaky σ) (hplain : request.isPlain = true)
    (operation : String) : ∃ r h₁ pending h₂ w₂,
    (Heap.answer setup (request.map Handle.cell)).run h = (r, h₁) ∧
      Heap.takeError.run h₁ = (.ok pending, h₂) ∧
      (exchange s request).run w = (.ok (handled s r, handledError s (.ok pending)), w₂) ∧
      Reports s operation r h₁ h₂ w₂ ((cross s operation request).run w).1 := by
  obtain ⟨lost, hs⟩ := hl
  have hplain' := (isPlain_map Handle.cell request).trans hplain
  cases hanswer : (Heap.answer setup (request.map Handle.cell)).run h with
  | mk r h₁ =>
    obtain ⟨-, leak, hs₁, -⟩ :=
      (Heap.tracks_answer setup _ (released?_of_isPlain hplain') h _ hs).of_run hanswer
    rw [due_of_isPlain hplain'] at hs₁
    obtain ⟨o, h₂, htake, hs₂, hq, hnone⟩ := Heap.quiet_takeError hs₁
    have hexchange := hr.run_exchange hanswer htake
    refine ⟨r, h₁, o, h₂, _, rfl, htake, hexchange, ?_⟩
    rw [cross, hr.run_crossWith _ operation hanswer htake]
    generalize hw₂ : w.put s h₂ (exchanged s (handled s r) (handledError s (.ok o))).length = w₂
    have hr₂ : w₂.RunsOn s setup h₂ := hw₂ ▸ hr.put h₂ _
    -- an error that is owned is live, so that it has a text
    have hraises {x : CellId} (released : List Handle)
        (hx : x ∈ o.toList ++ (resultStakes Answer.stakes r ++ (leak ++ (lost ++ σ)))) :
        Raises s h₂ w₂ x ((do
          let failure ← runtimeError (valueWithin maxErrors) ⟨s, x⟩
          HostM.release released
          throw failure : HostM (Answer Handle shape)).run w₂).1 := by
      obtain ⟨bytes, hbytes⟩ := hs₂.toBytes_ok (hs₂.isLive hx)
      exact ⟨bytes, hbytes, run_failure hr₂ hs₂ hq hbytes⟩
    rcases r with fault | answer
    · have hfault (hd : fault.diedValue? = none) : (conclude (valueWithin maxErrors) s operation
          (handled s (.error fault : Except Fault (Answer CellId shape)))
          (handledError s (.ok o))).run w₂ =
            (.error (fault.toHostError operation),
              w₂.releaseAll (pendingHandles (handledError s (.ok o)))) := by
        cases fault <;> first | rfl | cases hd
      cases hd : fault.diedValue? with
      | none =>
        rw [hfault hd]
        exact {
          succeeds := ⟨nofun, nofun⟩
          answers := nofun
          dies := fun x hx => by cases hx; cases hd
          finds := nofun
          fails := fun fault' hf _ => by cases hf; rfl }
      | some v =>
        obtain rfl : fault = .died v := by cases fault <;> cases hd; rfl
        have hv := hraises (⟨s, v⟩ :: pendingHandles (handledError s (.ok o)))
          (List.mem_append_right o.toList (List.mem_cons_self ..))
        exact {
          succeeds := ⟨fun hok => absurd hok hv.not_ok, nofun⟩
          answers := fun answer hok => absurd ⟨answer, hok⟩ hv.not_ok
          dies := fun x hx => by cases hx; exact hv
          finds := nofun
          fails := fun fault' hf hd' => by cases hf; cases hd' }
    · cases o with
      | none =>
        have hquiet := hnone.1 rfl
        exact {
          succeeds := ⟨fun _ => ⟨⟨answer, rfl⟩, hquiet.not_pending⟩, fun _ => ⟨_, rfl⟩⟩
          answers := fun answer' hok => by cases hok; rfl
          dies := nofun
          finds := fun _ c _ hc htrue => absurd ⟨c, hc, htrue⟩ hquiet.not_pending
          fails := nofun }
      | some x =>
        have hpending : h₁.Pending := hs₁.quiet_or_pending.resolve_left fun hq => by
          cases hnone.2 hq
        have hx := hraises (⟨s, x⟩ :: (HostM.stakesOf (handled s (.ok answer)))) (List.mem_cons_self ..)
        obtain ⟨c, x', h', hc, htake', -, -, -, hscalar, -⟩ := hs₁.run_takeError hpending
        obtain ⟨rfl, rfl⟩ : x = x' ∧ h₂ = h' := by
          have := htake.symm.trans htake'
          cases this
          exact ⟨rfl, rfl⟩
        exact {
          succeeds := ⟨fun hok => absurd hok hx.not_ok, fun hok => absurd hpending hok.2⟩
          answers := fun answer' hok => absurd ⟨answer', hok⟩ hx.not_ok
          dies := nofun
          finds := fun _ c' _ hc' _ => by
            obtain rfl : c = c' := Except.ok.inj (hc.symm.trans hc')
            exact ⟨x, hscalar, hx⟩
          fails := nofun }

/-- A crossing that succeeds has left no error behind, and comes down to the answer. -/
theorem run_cross_ok (request : Request Handle shape) {τ : List CellId}
    {answer : Answer CellId shape} {a : Answer Handle shape} (hr : w.RunsOn s setup h)
    (hl : h.Leaky σ) (hplain : request.isPlain = true)
    (hanswer : (Heap.answer setup (request.map Handle.cell)).run h = (.ok answer, h₁))
    (hs : h₁.Sound τ) (hrun : (cross s operation request).run w = (.ok a, w')) :
    h₁.Quiet ∧ a = answer.map (fun c => ⟨s, c⟩) ∧ w' = w.put s h₁ answer.stakes.length := by
  obtain ⟨r, h₂, _, _, _, hanswer', -, -, hreports⟩ := run_cross_reports hr hl hplain operation
  obtain rfl : h₁ = h₂ := congrArg Prod.snd (hanswer.symm.trans hanswer')
  rw [hrun] at hreports
  have hq : h₁.Quiet := hs.quiet_iff.2 (hreports.succeeds.1 ⟨a, rfl⟩).2
  have hlength : (HostM.stakesOf (handled s (.ok answer))).length = answer.stakes.length := by
    simp only [handled, Except.map, HostM.stakesOf, Answer.stakes_map, List.length_map]
  rw [cross, hr.run_crossWith_quiet hanswer hq (Heap.deathless_ok answer), hlength] at hrun
  cases hrun
  exact ⟨hq, rfl, rfl⟩

/-! ## Between the crossings -/

theorem Heap.isTrue_errorCell {c : CellId} {b : Bool} (hc : h.errorCell.toOption = some c)
    (hb : (h.isTrue c).toOption = some b) : h.errorCell = .ok c ∧ h.isTrue c = .ok b := by
  constructor
  · cases he : h.errorCell <;> rw [he] at hc <;> cases hc
    rfl
  · cases he : h.isTrue c <;> rw [he] at hb <;> cases hb
    rfl

theorem Session.startsQuietly_of_quiet {session : Session}
    (hquiet : ((Heap.boot session.engine.interpreter.setup session.config.interpreterArgs).run
      .initial).2.Quiet) : session.StartsQuietly := by
  intro h hboot
  rw [hboot] at hquiet
  exact hquiet.not_pending

theorem startsQuietly_default : (default : Session).StartsQuietly :=
  Session.startsQuietly_of_quiet
    ⟨⟨1⟩, Heap.isTrue_errorCell (by decide +kernel) (by decide +kernel)⟩

/-- No error is pending between the crossings of any run if and only if none is when an interpreter
has started. -/
theorem reached_not_pending_iff (hfresh : origin.Fresh) :
    (∀ w hs s h, Reached origin w hs → (w.session s).stage = .initialized →
      (w.session s).engine.interpreter.heap = some h → ¬ h.Pending) ↔
      ∀ s, (origin.session s).StartsQuietly := by
  refine ⟨fun hnever s => ?_, fun hquiet w hs s h hreach hstage hheap => ?_⟩
  · by_cases hs : s.index < origin.sessions.size
    · intro h hboot
      have hrun := run_construct rfl (hfresh.fixed s) (hfresh.heap s) hboot
      have hreach := Reached.start.construct s (hfresh.stage s) hrun
      have hsession := session_started hs h
      exact hnever _ [] s h hreach (by rw [hsession]) (by rw [hsession])
    · rw [World.session_out hs]
      exact startsQuietly_default
  · obtain ⟨h', hheap', -, hq⟩ := (hreach.quiet hfresh hquiet s).running hstage
    obtain rfl : h' = h := Option.some.inj (hheap'.symm.trans hheap)
    exact hq.not_pending

/-- Wherever the lines of a console lead, its host has come by primitive operations. -/
theorem reached_run {c : Console} (hfresh : c.Fresh) (lines : List Line) :
    Reached c.world (run lines c).2.world (run lines c).2.handles :=
  books_reached.run_ends (fun _ _ => .inr fun hreach hh => hreach.retain hh) hfresh.fixable
    (hfresh.handles ▸ .start)

/-- Every crossing reports what it met, in every world that a host can reach, and a run of console
lines reaches no others. No error is pending between crossings if and only if none is when an
interpreter has started. -/
theorem crossing_reports_errors {c : Console} (hfresh : c.Fresh) :
    (∀ {w hs s shape} (operation : String) (request : Request Handle shape), Reached c.world w hs →
      (w.session s).stage = .initialized → request.isPlain = true →
      ∃ h r h₁ pending h₂ w₂, (w.session s).engine.interpreter.heap = some h ∧
        (Heap.answer (w.session s).engine.interpreter.setup (request.map Handle.cell)).run h =
          (r, h₁) ∧
        Heap.takeError.run h₁ = (.ok pending, h₂) ∧
        (exchange s request).run w = (.ok (handled s r, handledError s (.ok pending)), w₂) ∧
        Reports s operation r h₁ h₂ w₂ ((cross s operation request).run w).1) ∧
      ((∀ w hs s h, Reached c.world w hs → (w.session s).stage = .initialized →
        (w.session s).engine.interpreter.heap = some h → ¬ h.Pending) ↔
        ∀ s, (c.world.session s).StartsQuietly) ∧
      ∀ lines, Reached c.world (run lines c).2.world (run lines c).2.handles := by
  refine ⟨fun {w hs s shape} operation request hreach hstage hplain => ?_,
    reached_not_pending_iff hfresh.world, reached_run hfresh⟩
  obtain ⟨h, hr, hl⟩ := (hreach.leaky hfresh.world).runsOn hstage
  obtain ⟨r, h₁, pending, h₂, w₂, hrest⟩ := run_cross_reports hr hl hplain operation
  have hengine := congrArg (fun e : Engine => (e.interpreter.heap, e.interpreter.setup)) hr.engine
  simp only [Prod.mk.injEq] at hengine
  rw [← hengine.2] at hrest
  exact ⟨h, r, h₁, pending, h₂, w₂, hengine.1, hrest⟩

/-- A package with a sub that dies. -/
def dying : Package where
  name := "Err"
  subs := [("boom", fun _ => Proc.fail "boom\n")]

def dyingConsole : Console := .single (Setup.preload {} dying)

theorem crossing_reports_errors_dying :
    let w := (run [{ command := .session ⟨0⟩ .start }] dyingConsole).2.world
    (∃ r h₁ h₂ w₂, Reports ⟨0⟩ "call" r h₁ h₂ w₂
      ((cross ⟨0⟩ "call" (.call (.named "Err::boom") [] .list)).run w).1) ∧
      ∀ w hs s h, Reached dyingConsole.world w hs → (w.session s).stage = .initialized →
        (w.session s).engine.interpreter.heap = some h → ¬ h.Pending := by
  obtain ⟨hreports, hpending, hreach⟩ := crossing_reports_errors (fresh_single (Setup.preload {} dying))
  refine ⟨?_, hpending.2 fun s => ?_⟩
  · obtain ⟨h, r, h₁, pending, h₂, w₂, -, -, -, -, hreport⟩ :=
      hreports (s := ⟨0⟩) "call" (.call (.named "Err::boom") [] .list)
        (hreach [{ command := .session ⟨0⟩ .start }]) (by decide +kernel) rfl
    exact ⟨r, h₁, h₂, w₂, hreport⟩
  · rcases session_single (Setup.preload {} dying) s with hs | hs <;> rw [hs]
    · exact Session.startsQuietly_of_quiet
        ⟨⟨1⟩, Heap.isTrue_errorCell (by decide +kernel) (by decide +kernel)⟩
    · exact startsQuietly_default

/-- A package whose variables include the one for the pending error. -/
def leaving : Package where
  name := "main"
  scalars := [("@", .text "boom")]

def leavingConsole : Console := .single (Setup.preload {} leaving)

/-- The start of an interpreter looks for no pending error, so an error can be left behind by it. -/
theorem pending_after_start : ¬ ∀ w hs s h, Reached leavingConsole.world w hs →
    (w.session s).stage = .initialized → (w.session s).engine.interpreter.heap = some h →
      ¬ h.Pending := by
  intro hnever
  have hquiet := (reached_not_pending_iff (fresh_single _).world).1 hnever ⟨0⟩
  obtain ⟨h, hboot, -⟩ := run_boot (Setup.preload {} leaving) ({} : Config).interpreterArgs
  obtain rfl : h = ((Heap.boot (Setup.preload {} leaving) ({} : Config).interpreterArgs).run
    .initial).2 := by rw [hboot]
  exact hquiet _ hboot ⟨⟨1⟩, Heap.isTrue_errorCell (by decide +kernel) (by decide +kernel)⟩

end Embedding
