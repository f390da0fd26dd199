import Embedding.Proofs.CursorEnds
import Embedding.Proofs.Host.Drafting
import Embedding.Proofs.RoundTrip

/-!
# Failed conversions

A value that cannot become a cell leaves no trace. Whatever was made of its parts is given back, and the
interpreter has the cells, contents and counts that it had. An error that is pending is an exception: it is
taken away by the crossing that meets it.
-/

namespace Embedding

open Heap Console

/-- Whether a request may run code of the interpreter. -/
def Request.runsCode {κ : Type} : {shape : Shape} → Request κ shape → Bool
  | _, .construct _ | _, .eval .. | _, .require _ | _, .call .. => true
  | _, _ => false

/-- Anything may be asked that runs no code. -/
abbrev Codeless : Permission := fun _ _ request => request.runsCode = false

instance : Reads Codeless where
  reads _ request hreads := by cases request <;> first | rfl | cases hreads

instance {s : SessionId} {I : World → List Handle → Prop} : Makes Codeless s I where
  makes request hmakes _ := by cases request <;> first | rfl | cases hmakes
  arrayStore _ _ _ _ := rfl
  hashStore _ _ _ _ := rfl

/-- An operation that fails has left the world as it was, but for numbers of cells that are not used
again. It has run no code: what goes on through all requests but those that do has gone on. -/
structure Traceless (w : World) (hs : List Handle) (s : SessionId) (h : Heap) (e : HostError)
    (w' : World) : Prop where
  restored : ∃ h', w' = w.put s h' 0 ∧ h.Restored h'
  handles : e.handles = []
  codeless : ∀ I, Dealing Codeless I → I w hs → I w' hs

variable {origin w w' : World} {hs : List Handle} {s : SessionId} {setup : Setup} {base h : Heap}
  {σ : List CellId} {e : HostError} {v : Value}

theorem Heap.Draft.restored (hd : Draft base h σ) (hbase : base.Exact σ) : base.Restored h where
  cells := hd.cell?_eq hbase
  symbols := hd.tended.firm.symbols
  loaded := hd.loaded
  size := hd.tended.firm.size

/-! ## Values and lists of values -/

section
variable (hk : w.KeptOn s setup h) (hl : h.Leaky (cellsOf s hs))
include hk hl

theorem World.KeptOn.traceless {α : Type} {x : HostM α} {b : List Handle} {given : α → List CellId}
    {given' : α → List Handle} {P : α → Heap → Prop} (hb : b ⊆ hs)
    (hx : ∀ {σ}, h.Sound σ → (∀ c ∈ b, c.session = s → h.isLive c.cell) →
      Ends x (w.put s h 0) (Drafting w s h σ 0 given P))
    (hcodeless : ∀ {I}, Dealing Codeless I → Accounts I b x [] given')
    (hrun : x.run w = (.error e, w')) : Traceless w hs s h e w' := by
  obtain ⟨lost, hsound⟩ := hl
  have hends := hx hsound fun c hc hsession =>
    hsound.isLive (List.mem_append_right lost (hsession ▸ mem_cellsOf (hb hc)))
  rw [hk.put_self] at hends
  obtain ⟨he, h', hw', hd⟩ : Drafting w s h _ 0 given P (.error e) w' := hends.of_run hrun
  refine ⟨⟨h', hw', hd.restored hsound.exact⟩, he, fun I hdealing hI => ?_⟩
  have hI' := (hcodeless hdealing w hs hb hI).of_run hrun
  rwa [hostStakes, he] at hI'

theorem World.KeptOn.traceless_newCell (hq : h.Quiet) (hv : v.handles ⊆ hs)
    (hrun : (newCell s v).run w = (.error e, w')) : Traceless w hs s h e w' :=
  hk.traceless hl hv (fun hsound hlive => drafts_newCell hk hq hsound.exact hlive
    (List.Subset.refl _) (draft_refl hsound)) (fun hdealing => hdealing.accounts_newCell v) hrun

theorem World.KeptOn.traceless_newCells {args : List Value} (hq : h.Quiet)
    (hargs : Value.handlesOfItems args ⊆ hs) (hrun : (newCells s args).run w = (.error e, w')) :
    Traceless w hs s h e w' :=
  hk.traceless hl hargs (fun hsound hlive => drafts_newCells hk hq hsound.exact hlive
    (List.Subset.refl _) (draft_refl hsound)) (fun hdealing => hdealing.accounts_newCells args) hrun

end

/-! ## Containers and callables -/

/-- The ways in which a host stores a value in the container of a handle. -/
inductive Stores (w : World) (v : Value) : Handle → HostM Unit → Prop
  | arraySet (a : ArrayView) (index : Nat) : Stores w v a.cell (a.set index v)
  | arrayPush (a : ArrayView) {n : Nat} : (a.length.run w).1 = .ok n → Stores w v a.cell (a.push v)
  | hashSet (hash : HashView) (key : String) : Stores w v hash.cell (hash.set key v)

theorem ArrayView.run_set_error {a : ArrayView} (index : Nat)
    (hrun : (newCell a.cell.session v).run w = (.error e, w')) :
    (a.set index v).run w = (.error e, w'.releaseAll v.handles) := by
  rw [ArrayView.set, run_bind_error]
  rw [HostM.run_holding, hrun]

theorem HashView.run_set_error {hash : HashView} (key : String)
    (hrun : (newCell hash.cell.session v).run w = (.error e, w')) :
    (hash.set key v).run w = (.error e, w'.releaseAll v.handles) := by
  rw [HashView.set, run_bind_error]
  rw [HostM.run_holding, hrun]

/-- A value that cannot become a cell is not stored. It was taken over, so its handles are released. -/
theorem Stores.run_error {c : Handle} {x : HostM Unit} (hx : Stores w v c x)
    (ha : Arrived origin c.session w hs h) (hfresh : origin.Fresh) (hc : c ∈ hs)
    (hrun : (newCell c.session v).run w = (.error e, w')) :
    x.run w = (.error e, w'.releaseAll v.handles) := by
  cases hx with
  | arraySet a index => exact ArrayView.run_set_error index hrun
  | hashSet hash key => exact HashView.run_set_error key hrun
  | arrayPush a hlength =>
    cases hitems : h.items a.cell.cell with
    | error fault =>
      have hend := ha.run_length hfresh hc
      rw [hitems] at hend
      rw [hend] at hlength
      cases hlength
    | ok items =>
      rw [ha.run_push hfresh hc hitems]
      exact ArrayView.run_set_error items.size hrun

theorem Callable.run_call_error {c : Callable} {args : List Value}
    (hrun : (newCells c.anchor.session args).run w = (.error e, w')) :
    (c.call args).run w = (.error e, w') := by
  rw [Callable.call, run_bind_error hrun]

/-- Wherever a host has come, a value that cannot become a cell leaves no trace: neither when it is handed
over, unless an error is pending, nor when it is to be stored or passed to a callable. No error is pending
where the host has a handle, and none is anywhere when no interpreter starts with one. -/
theorem failed_conversion (hfresh : origin.Fresh) (hreach : Reached origin w hs)
    (hstage : (w.session s).stage = .initialized) : ∃ h,
      (w.session s).engine.interpreter.heap = some h ∧
      (∀ v, v.handles ⊆ hs → (w.session s).isKept = true → ¬ h.Pending →
        ∀ e w', (s.toForeign v).run w = (.error e, w') → Traceless w hs s h e w') ∧
      (∀ v, v.handles ⊆ hs → ∀ c ∈ hs, c.session = s → ∀ x, Stores w v c x →
        ∀ e w', (newCell s v).run w = (.error e, w') →
          Traceless w hs s h e w' ∧ x.run w = (.error e, w'.releaseAll v.handles)) ∧
      (∀ args, Value.handlesOfItems args ⊆ hs → ∀ c : Callable, c.anchor ∈ hs → c.anchor.session = s →
        ∀ e w', (newCells s args).run w = (.error e, w') →
          Traceless w hs s h e w' ∧ (c.call args).run w = (.error e, w')) ∧
      ((∃ c ∈ hs, c.session = s) ∨ (∀ t, (origin.session t).StartsQuietly) → ¬ h.Pending) := by
  obtain ⟨h, hr, lost, hs'⟩ := (hreach.leaky hfresh).runsOn hstage
  have hl : h.Leaky (cellsOf s hs) := ⟨lost, hs'⟩
  have hheap : (w.session s).engine.interpreter.heap = some h := by rw [hr.engine]
  have ha : Arrived origin s w hs h := ⟨hreach, hr⟩
  refine ⟨h, hheap, ?_, ?_, ?_, ?_⟩
  · intro v hv hkept hnot e w' hrun
    rw [run_toForeign hstage] at hrun
    exact World.KeptOn.traceless_newCell ⟨hr, hkept⟩ hl (hs'.quiet_iff.2 hnot) hv hrun
  · rintro v hv c hc rfl x hx e w' hrun
    have hk := ha.keptOn hfresh hc rfl
    obtain ⟨-, hq, -⟩ := ha.good hfresh hc rfl
    exact ⟨hk.traceless_newCell hl hq hv hrun, hx.run_error ha hfresh hc hrun⟩
  · rintro args hargs c hc rfl e w' hrun
    have hk := ha.keptOn hfresh hc rfl
    obtain ⟨-, hq, -⟩ := ha.good hfresh hc rfl
    exact ⟨hk.traceless_newCells hl hq hargs hrun, Callable.run_call_error hrun⟩
  · rintro (⟨c, hc, hsession⟩ | hquiet)
    · obtain ⟨-, hq, -⟩ := ha.good hfresh hc hsession
      exact hq.not_pending
    · exact (reached_not_pending_iff hfresh).2 hquiet w hs s h hreach hstage hheap

def heldArray : List Line := [{ command := .session ⟨0⟩ (.newArray []), into := some "a" }]

def heldView : Handle := ⟨⟨0⟩, ⟨5⟩⟩

/-- A list that refers to an array and has a bound method further in. -/
def partlyBound : Value :=
  .list [.array ⟨heldView⟩, .mapping [("m", .callable (.method heldView "m"))]]

theorem failed_conversion_partly :
    let c := (run heldArray (.single {})).2
    (∃ h e w', (SessionId.toForeign ⟨0⟩ partlyBound).run c.world = (.error e, w') ∧
      Traceless c.world c.handles ⟨0⟩ h e w') ∧
    ∃ h e w', (ArrayView.push ⟨heldView⟩ partlyBound).run c.world =
        (.error e, w'.releaseAll partlyBound.handles) ∧
      Traceless c.world c.handles ⟨0⟩ h e w' := by
  have hreach := reached_run (fresh_single {}) heldArray
  have hstage : ((run heldArray (.single {})).2.world.session ⟨0⟩).stage = .initialized := by
    decide +kernel
  have hkept : ((run heldArray (.single {})).2.world.session ⟨0⟩).isKept = true := by decide +kernel
  have hhandles : partlyBound.handles ⊆ (run heldArray (.single {})).2.handles := by decide +kernel
  have hmem : heldView ∈ (run heldArray (.single {})).2.handles := by decide +kernel
  have hfails : ((SessionId.toForeign ⟨0⟩ partlyBound).run
      (run heldArray (.single {})).2.world).1.isOk = false := by decide +kernel
  have hlength : ((ArrayView.length ⟨heldView⟩).run (run heldArray (.single {})).2.world).1.toOption =
      some 0 := by decide +kernel
  generalize (run heldArray (.single {})).2 = c at hreach hstage hkept hhandles hmem hfails hlength ⊢
  obtain ⟨h, -, hhanded, hstored, -, hnot⟩ :=
    failed_conversion (s := ⟨0⟩) (fresh_single {}).world hreach hstage
  obtain ⟨e, w', hrun⟩ := exists_error hfails
  refine ⟨⟨h, e, w', hrun, ?_⟩, ?_⟩
  · exact hhanded partlyBound hhandles hkept (hnot (.inl ⟨heldView, hmem, rfl⟩)) e w' hrun
  · rw [run_toForeign hstage] at hrun
    obtain ⟨htraceless, hpush⟩ := hstored partlyBound hhandles heldView hmem rfl _
      (.arrayPush ⟨heldView⟩ (eq_ok_of_toOption hlength)) e w' hrun
    exact ⟨h, e, w', hpush, htraceless⟩

/-- A conversion that fails because an error is pending takes the error away. -/
theorem pending_error_taken : ¬ ∀ w hs v e w' h h', Reached leavingConsole.world w hs →
    (w.session ⟨0⟩).stage = .initialized → (w.session ⟨0⟩).engine.interpreter.heap = some h →
    (w'.session ⟨0⟩).engine.interpreter.heap = some h' → v.handles ⊆ hs →
    (SessionId.toForeign ⟨0⟩ v).run w = (.error e, w') → ∀ c, h'.cell? c = h.cell? c := by
  intro hsame
  have hreach := reached_run (fresh_single (Setup.preload {} leaving))
    [{ command := .session ⟨0⟩ .start }]
  have hstage : ((started (Setup.preload {} leaving)).session ⟨0⟩).stage = .initialized := by
    decide +kernel
  have hfails : ((SessionId.toForeign ⟨0⟩ (.int 1)).run
      (started (Setup.preload {} leaving))).1.isOk = false := by decide +kernel
  have hbefore : (((started (Setup.preload {} leaving)).session ⟨0⟩).engine.interpreter.heap.bind
      fun h => (h.isTrue ⟨1⟩).toOption) = some true := by decide +kernel
  have hafter : ((((SessionId.toForeign ⟨0⟩ (.int 1)).run
      (started (Setup.preload {} leaving))).2.session ⟨0⟩).engine.interpreter.heap.bind
        fun h => (h.isTrue ⟨1⟩).toOption) = some false := by decide +kernel
  obtain ⟨e, w', hrun⟩ := exists_error hfails
  rw [hrun] at hafter
  obtain ⟨h, hheap, htrue⟩ := Option.bind_eq_some_iff.1 hbefore
  obtain ⟨h', hheap', hfalse⟩ := Option.bind_eq_some_iff.1 hafter
  have hcells := hsame _ _ (.int 1) e w' h h' hreach hstage hheap hheap' (List.nil_subset _) hrun
  have hscalar : h'.isTrue ⟨1⟩ = h.isTrue ⟨1⟩ := by
    unfold Heap.isTrue Heap.scalar Heap.cell
    rw [hcells]
  rw [hscalar, htrue] at hfalse
  cases hfalse

end Embedding
