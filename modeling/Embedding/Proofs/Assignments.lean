import Embedding.Proofs.Host.Filling
import Embedding.Proofs.RoundTrip

/-!
# Failed assignments

An assignment to a scalar fails before it changes anything, unless the variable is the one in which
errors are left. An array or a hash is emptied first and then filled item by item, so that an
assignment that fails at an item leaves the items before it.
-/

namespace Embedding

open Heap Console
open HostM (holding)

/-- The ways in which a host assigns a value to the variable of a name. -/
inductive Assigns (s : SessionId) : String → Value → HostM Unit → Prop
  | global (name v) : Assigns s name v (s.setGlobal name v)
  | package (p : Namespace) (name v) : p.session = s →
    Assigns s (Name.qualifyIn p.name name) v (p.setVariable name v)

/-- The variable is the one in which errors are left. The assignment of a true value was taken for an
error, and the variable was emptied. -/
def Heap.Reported (h h' : Heap) (name : String) : Prop :=
  ∃ c, h.errorCell = .ok c ∧ h.named? name = some c ∧ h'.scalar c = .ok (.ofBytes [] false)

/-- What is left of an array or a hash. If the value gives no items, it stays as it was. If it does, the
items that come before the first that cannot become a cell are in it. -/
def Filling.Leaves {ι : Type} (F : Filling ι) (s : SessionId) (qualified : String)
    (items : HostM (List ι)) (w : World) (e : HostError) (h h' : Heap) (name : String) : Prop :=
  match items.run w with
  | (.ok items, w₁) => StopsAt s F.value (F.refill s qualified) items w₁ e h' name
  | (.error _, _) => h.Stays h' name

/-- What an assignment that fails leaves of a variable. -/
def Aftermath (s : SessionId) (name : String) (v : Value) (w : World) (e : HostError) (h h' : Heap) :
    Prop :=
  match Name.parseGlobal name with
  | (.scalar, _) => h.Stays h' name ∨ h.Reported h' name
  | (.array, qualified) => pushing.Leaves s qualified (arrayItems v) w e h h' name
  | (.hash, qualified) => setting.Leaves s qualified (hashEntries v) w e h h' name
  | (.code, _) => h.Stays h' name

variable {origin w w' : World} {hs σ : List Handle} {s : SessionId} {h : Heap} {e : HostError}
  {name qualified : String} {v : Value}

theorem Assigns.run_eq {x : HostM Unit} (hx : Assigns s name v x)
    (hstage : (w.session s).stage = .initialized) : x.run w = (writeGlobal s name v).run w := by
  cases hx with
  | global => rw [SessionId.setGlobal, run_bind_ok (run_ensureReady hstage "set_global")]
  | package p name v hp =>
    subst hp
    rfl

/-! ## Scalars -/

section
variable (hfresh : origin.Fresh)
include hfresh

/-- An assignment to a scalar fails only if it leaves an error behind, which is then taken away. -/
theorem Anchored.assign_error {source : Handle} {c : CellId} (ha : Anchored origin s w hs h)
    (hq : h.Quiet) (hc : (⟨s, c⟩ : Handle) ∈ hs) (hsource : source ∈ hs) (hsession : source.session = s)
    (hsort : h.HasSort .scalar c)
    (hrun : (cross s "set_global" (.assign ⟨s, c⟩ source)).run w = (.error e, w')) :
    ∃ h', Anchored origin s w' (e.handles ++ hs) h' ∧ h'.Quiet ∧ h.errorCell = .ok c ∧
      h'.errorCell = .ok c ∧ h'.scalar c = .ok (.ofBytes [] false) := by
  obtain ⟨lost, hs'⟩ := ha.leaky hfresh
  obtain ⟨y, hy, hslot⟩ := hsort
  obtain ⟨t, ht⟩ := scalar_of_slot? hy hslot
  have hlive : h.isLive source.cell :=
    hs'.isLive (List.mem_append_right lost (hsession ▸ mem_cellsOf hsource))
  obtain ⟨_, h₁, hassign, -, hs₁⟩ := gives_assign ht hlive _ hs'
  have hf := preserves_assign h c source.cell h (firm_refl (fun _ _ _ => rfl) h)
  rw [hassign] at hf
  have hcells : ∀ a ∈ [(⟨s, c⟩ : Handle), source], a.session = s := by simp [hsession]
  have hsub : [(⟨s, c⟩ : Handle), source] ⊆ hs :=
    List.cons_subset.2 ⟨hc, List.cons_subset.2 ⟨hsource, List.nil_subset hs⟩⟩
  -- without an error the crossing would have succeeded
  have hpending : h₁.Pending := hs₁.quiet_or_pending.resolve_left fun hq₁ => by
    obtain ⟨hcross, -⟩ := ha.cross "set_global" (.assign ⟨s, c⟩ source) rfl hcells hsub hassign hq₁
    rw [hcross] at hrun
    cases hrun
  obtain ⟨d, x, h₂, hd, htake, hev₂, -, hq₂, -, hempty⟩ := hs₁.run_takeError hpending
  have hd₀ : h.errorCell = .ok d := (errorCell_congr hf.symbols).symm.trans hd
  obtain rfl : d = c := Except.ok.inj (hd₀.symm.trans
    ((hq.besides_or hs' hs₁ hf).resolve_left fun hq₁ => hq₁.not_pending hpending))
  have hexchange : (exchange s (.assign ⟨s, d⟩ source)).run w = _ :=
    ha.runs.run_exchange hassign htake
  have hreach := ha.reach.exchange (.assign ⟨s, d⟩ source) ha.runs.stage rfl hcells hsub hexchange
  have ha₂ := ha.put ⟨hreach, ha.runs.put h₂ _⟩
  have hconclude : (crossWith (valueWithin maxErrors) s "set_global" (.assign ⟨s, d⟩ source)).run w =
      _ := ha.runs.run_crossWith _ "set_global" hassign htake
  rw [cross, hconclude] at hrun
  obtain ⟨h', ha', hf', hq', -⟩ := ha₂.leaves hfresh hq₂ (List.nil_subset hs) (fun hdealing =>
    hdealing.toStock.accounts_conclude (fun a => hdealing.accounts_valueWithin maxErrors a) _ _) hrun
  obtain ⟨lost', hs₃⟩ := ha'.leaky hfresh
  have hd₂ : h'.errorCell = .ok d := by
    rw [errorCell_congr hf'.symbols]
    exact errorCell_eq_ok_iff.2 (hev₂.symbols .scalar _ _ (by decide) (errorCell_eq_ok_iff.1 hd))
  exact ⟨h', ha', hq', hd₀, hd₂, hf'.scalar_ok hempty turning_scalar (hs₃.isLive_errorCell hd₂)⟩

theorem Anchored.scalar_error (ha : Anchored origin s w hs h) (hq : h.Quiet) (hv : v.handles ⊆ hs)
    (hrun : (do
      let source ← newCell s v
      holding [source] do
        let target ← createGlobal s .scalar qualified
        holding [target] do cross s "set_global" (.assign target source) : HostM Unit).run w =
          (.error e, w')) : ∃ h', Anchored origin s w' (e.handles ++ hs) h' ∧
      ((∀ name, h.Stays h' name) ∨ ∃ c, h.errorCell = .ok c ∧
        h.symbol? .scalar (Name.qualify qualified) = some c ∧ h'.scalar c = .ok (.ofBytes [] false)) := by
  have ha₀ : Anchored origin s w ([] ++ hs) h := ha
  cases hnew : (newCell s v).run w with
  | mk r w₁ =>
    obtain ⟨h₁, ha₁, hf₁, hq₁, hstays⟩ := ha₀.leaves hfresh hq hv
      (fun hdealing => hdealing.accounts_newCell v) hnew
    cases r with
    | error e' =>
      rw [run_bind_error hnew] at hrun
      cases hrun
      exact ⟨h₁, ha₁, .inl hstays⟩
    | ok source =>
      obtain ⟨c, h₂, hcreate, ha₂, hq₂, hev₂, hnamed, hold⟩ :=
        ha₁.run_createGlobal hfresh hq₁ (show Slot.scalar ≠ .code from nofun) qualified
      obtain ⟨lost₁, hs₁⟩ := ha₁.leaky hfresh
      obtain ⟨lost₂, hs₂⟩ := ha₂.leaky hfresh
      rw [run_bind_ok hnew, HostM.run_holding, run_bind_ok hcreate, HostM.run_holding] at hrun
      cases hcross : (cross s "set_global" (.assign ⟨s, c⟩ source)).run (w₁.put s h₂ 1) with
      | mk r w₃ =>
        rw [hcross] at hrun
        obtain ⟨rfl, hw'⟩ := Prod.mk.inj hrun
        have hreleased : (HostM.release ([⟨s, c⟩] ++ [source])).run w₃ = (.ok (), w') := by
          rw [← hw', HostM.run_release, World.releaseAll_append]
        have hsource : source ∈ ⟨s, c⟩ :: ([source] ++ hs) := .tail _ (List.mem_cons_self ..)
        obtain ⟨h₃, ha₃, hq₃, hc₂, hc₃, hempty⟩ := ha₂.assign_error hfresh hq₂ (List.mem_cons_self ..)
          hsource (newCell_session hnew) (hs₂.hasSort hnamed) hcross
        -- the variable was there before, since errors are not left in a new one
        obtain ⟨d, _, hd, -⟩ := hs₁.errorCell
        have hd₂ := errorCell_eq_ok_iff.2 (hev₂.symbols .scalar _ _ (by decide) (errorCell_eq_ok_iff.1 hd))
        obtain rfl : d = c := Except.ok.inj (hd₂.symm.trans hc₂)
        have hnamed₁ : h₁.symbol? .scalar (Name.qualify qualified) = some d := by
          refine hold.resolve_right fun hnew => ?_
          obtain ⟨x, hx⟩ := exists_cell (hs₁.isLive_errorCell hd)
          exact Nat.not_lt.2 hnew.2 (lt_of_cell? hx)
        have ha₄ : Anchored origin s w₃ ([⟨s, d⟩] ++ [source] ++ (e.handles ++ hs)) h₃ := by
          refine ha₃.perm (List.perm_iff_count.2 fun a => ?_)
          simp only [hostStakes, List.count_append, List.count_cons, List.count_nil]
          omega
        obtain ⟨h', ha', hf', -, -⟩ := ha₄.leaves hfresh hq₃ (List.nil_subset _)
          (fun hdealing => hdealing.accounts_release _) hreleased
        obtain ⟨lost', hs'⟩ := ha'.leaky hfresh
        have hlive : h'.isLive d := hs'.isLive_errorCell ((errorCell_congr hf'.symbols).trans hc₃)
        refine ⟨h', ha', .inr ⟨d, (errorCell_congr hf₁.symbols).symm.trans hd, ?_,
          hf'.scalar_ok hempty turning_scalar hlive⟩⟩
        rwa [symbol?, ← hf₁.symbols]

/-! ## Arrays and hashes -/

theorem Anchored.items_error {ι : Type} {F : Filling ι} (hF : F.Lawful) (hslot : F.slot ≠ .code)
    {items : HostM (List ι)} (ha : Anchored origin s w hs h) (hq : h.Quiet) (hv : v.handles ⊆ hs)
    (haccounts : ∀ {may : Permission} {I}, Dealing may I → ∀ [Looks may],
      Accounts I v.handles items [] F.handles)
    {rest : List ι → HostM Unit} (hrest : ∀ items w, (rest items).run w = (F.refill s qualified items).run w)
    (hrun : (do rest (← items)).run w = (.error e, w')) (name : String) :
    ∃ h', Anchored origin s w' (e.handles ++ hs) h' ∧
      F.Leaves s qualified items w e h h' name := by
  have ha₀ : Anchored origin s w ([] ++ hs) h := ha
  unfold Filling.Leaves
  cases hitems : items.run w with
  | mk r w₁ =>
    obtain ⟨h₁, ha₁, -, hq₁, hstays⟩ :=
      ha₀.leaves hfresh hq hv (fun hdealing => haccounts hdealing) hitems
    cases r with
    | error e' =>
      rw [run_bind_error hitems] at hrun
      cases hrun
      exact ⟨h₁, ha₁, hstays name⟩
    | ok items =>
      rw [run_bind_ok hitems, hrest] at hrun
      exact hF.refill_stopsAt hfresh hslot ha₁ hq₁ hrun name

end

/-- An assignment that fails in a session that runs without a pending error. -/
theorem failed_assignment (hfresh : origin.Fresh) (hreach : Reached origin w hs)
    (hstage : (w.session s).stage = .initialized) (hanchored : (w.session s).anchored = true)
    (hheap : (w.session s).engine.interpreter.heap = some h) (hnot : ¬ h.Pending) {x : HostM Unit}
    (hx : Assigns s name v x) (hv : v.handles ⊆ hs) (hrun : x.run w = (.error e, w')) :
    ∃ h', (w'.session s).engine.interpreter.heap = some h' ∧ Aftermath s name v w e h h' := by
  obtain ⟨h₀, hr, lost, hs₀⟩ := (hreach.leaky hfresh).runsOn hstage
  obtain rfl : h₀ = h := by
    rw [hr.engine] at hheap
    exact Option.some.inj hheap
  have ha : Anchored origin s w hs h₀ := ⟨⟨hreach, hr⟩, hanchored⟩
  have hq : h₀.Quiet := hs₀.quiet_iff.2 hnot
  suffices hafter : ∃ h', Anchored origin s w' (e.handles ++ hs) h' ∧ Aftermath s name v w e h₀ h' by
    obtain ⟨h', ha', hafter⟩ := hafter
    exact ⟨h', by rw [ha'.runs.engine], hafter⟩
  rw [hx.run_eq hstage, writeGlobal] at hrun
  unfold Aftermath
  cases hname : Name.parseGlobal name with
  | mk slot qualified =>
    rw [hname] at hrun
    cases slot with
    | scalar =>
      obtain ⟨h', ha', hstays | ⟨c, hc, hnamed, hempty⟩⟩ := ha.scalar_error hfresh hq hv hrun
      · exact ⟨h', ha', .inl (hstays name)⟩
      · exact ⟨h', ha', .inr ⟨c, hc, by rw [named?, hname]; exact hnamed, hempty⟩⟩
    | array =>
      have hrefill (items : List Value) (w : World) := run_refilling (f := ArrayView.mk)
        (g := ArrayView.cell) (fun _ => rfl) (Value.handlesOfItems items)
        (createGlobal s .array qualified) ArrayView.clear (·.pushAll items) w
      exact ha.items_error hfresh lawful_pushing (show Slot.array ≠ .code by decide) hq hv
        (fun hdealing => hdealing.accounts_arrayItems v) hrefill hrun name
    | hash =>
      have hrefill (entries : List (String × Value)) (w : World) := run_refilling (f := HashView.mk)
        (g := HashView.cell) (fun _ => rfl) (Value.handlesOfEntries entries)
        (createGlobal s .hash qualified) HashView.clear (·.setAll entries) w
      exact ha.items_error hfresh lawful_setting (show Slot.hash ≠ .code by decide) hq hv
        (fun hdealing => hdealing.accounts_hashEntries v) hrefill hrun name
    | code =>
      cases hrun
      exact ⟨h₀, ha, (firm_refl (fun _ _ => .inl rfl) h₀).stays hs₀ hs₀ name⟩

def twoItems : List Line := [
  { command := .session ⟨0⟩ (.newArray []), into := some "m" },
  { command := .session ⟨0⟩ (.set "@a" (.list [.int 1, .int 2])) }]

/-- A list whose second item has no counterpart in the interpreter. -/
def spoilt : Value := .list [.int 3, .callable (.method ⟨⟨0⟩, ⟨5⟩⟩ "m"), .int 4]

theorem failed_assignment_spoilt :
    let c := (run twoItems (.single {})).2
    ∃ e w' h h', (SessionId.setGlobal ⟨0⟩ "@a" spoilt).run c.world = (.error e, w') ∧
      (c.world.session ⟨0⟩).engine.interpreter.heap = some h ∧
      (w'.session ⟨0⟩).engine.interpreter.heap = some h' ∧
      Aftermath ⟨0⟩ "@a" spoilt c.world e h h' := by
  have hreach := reached_run (fresh_single {}) twoItems
  have hstage : ((run twoItems (.single {})).2.world.session ⟨0⟩).stage = .initialized := by
    decide +kernel
  have hanchored : ((run twoItems (.single {})).2.world.session ⟨0⟩).anchored = true := by
    decide +kernel
  have hhandles : spoilt.handles ⊆ (run twoItems (.single {})).2.handles := by decide +kernel
  have hfails : ((SessionId.setGlobal ⟨0⟩ "@a" spoilt).run
      (run twoItems (.single {})).2.world).1.isOk = false := by decide +kernel
  have hquiet (t : SessionId) : ((Console.single {}).world.session t).StartsQuietly := by
    rcases session_single {} t with ht | ht <;> rw [ht] <;> exact startsQuietly_default
  have hnot := (reached_not_pending_iff (fresh_single {}).world).2 hquiet
  generalize (run twoItems (.single {})).2 = c at hreach hstage hanchored hhandles hfails ⊢
  obtain ⟨e, w', hrun⟩ := exists_error hfails
  obtain ⟨h, hr, -⟩ := (hreach.leaky (fresh_single {}).world).runsOn hstage
  have hheap : (c.world.session ⟨0⟩).engine.interpreter.heap = some h := by rw [hr.engine]
  obtain ⟨h', hheap', hafter⟩ := failed_assignment (fresh_single {}).world hreach hstage hanchored
    hheap (hnot _ _ _ _ hreach hstage hheap) (.global "@a" spoilt) hhandles hrun
  exact ⟨e, w', h, h', hrun, hheap, hheap', hafter⟩

/-- An assignment that fails at its second item leaves the first in the place of what was there. -/
theorem not_all_or_nothing : ¬ ∀ name v e w' h h',
    let c := (run twoItems (.single {})).2
    v.handles ⊆ c.handles → (SessionId.setGlobal ⟨0⟩ name v).run c.world = (.error e, w') →
    (c.world.session ⟨0⟩).engine.interpreter.heap = some h →
    (w'.session ⟨0⟩).engine.interpreter.heap = some h' → h.Stays h' name := by
  intro hstays
  have hhandles : spoilt.handles ⊆ (run twoItems (.single {})).2.handles := by decide +kernel
  have hfails : ((SessionId.setGlobal ⟨0⟩ "@a" spoilt).run
      (run twoItems (.single {})).2.world).1.isOk = false := by decide +kernel
  have hbefore : ((run twoItems (.single {})).2.world.session ⟨0⟩).engine.interpreter.heap.bind
      (·.contents? "@a") = some [⟨8⟩, ⟨10⟩] := by decide +kernel
  have hafter : (((SessionId.setGlobal ⟨0⟩ "@a" spoilt).run
      (run twoItems (.single {})).2.world).2.session ⟨0⟩).engine.interpreter.heap.bind
      (·.contents? "@a") = some [⟨12⟩] := by decide +kernel
  generalize (run twoItems (.single {})).2 = c at hstays hhandles hfails hbefore hafter
  obtain ⟨e, w', hrun⟩ := exists_error hfails
  rw [hrun] at hafter
  obtain ⟨h, hheap, hcontents⟩ := Option.bind_eq_some_iff.1 hbefore
  obtain ⟨h', hheap', hcontents'⟩ := Option.bind_eq_some_iff.1 hafter
  have hsame := (hstays "@a" spoilt e w' h h' hhandles hrun hheap hheap').contents?
  rw [hcontents, hcontents'] at hsame
  cases hsame

end Embedding
