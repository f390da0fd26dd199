import Embedding.Proofs.Host.Planting
import Embedding.Proofs.Host.Seeing
import Embedding.Proofs.PendingErrors

/-!
# Deep round trips

Plain data that crosses to an interpreter and back is the same data again, however deeply lists and
mappings are nested in it, and nothing of it stays behind. An error that is pending prevents that.
-/

namespace Embedding

open Heap Console
open HostM (holding)

/-- Reads views of arrays and hashes, and the views in them, up to a depth. Each view is released
when its items have been read. -/
def materialize : (depth : Nat) → Value → HostM Value
  | depth + 1, .array view => .list <$> holding [view.cell] do
    (← view.toList).mapM (materialize depth)
  | depth + 1, .hash view => .mapping <$> holding [view.cell] do
    let entries ← view.toDict
    return (Dict.keys entries).zip (← (Dict.values entries).mapM (materialize depth))
  | _, v => return v

/-- The heap has the cells of the heap before, with the same contents and counts. Only the number of
the next cell may have changed. -/
structure Heap.Restored (h h' : Heap) : Prop where
  cells : ∀ c, h'.cell? c = h.cell? c
  symbols : h'.symbols = h.symbols
  loaded : h'.loaded = h.loaded
  size : h.cells.size ≤ h'.cells.size

/-- The value crosses to the interpreter, is read back as it was, and leaves nothing in the heap and
no handle when the handle in its cell is released. -/
def RoundTrips (w : World) (s : SessionId) (h : Heap) (v : Value) : Prop :=
  ∃ c w₁, (s.toForeign v).run w = (.ok c, w₁) ∧ ∀ depth, v.height ≤ depth →
    ∃ w₂ h', (do materialize depth (← s.toHost c) : HostM Value).run w₁ = (.ok v, w₂) ∧
      w₂.release c = w.put s h' 0 ∧ h.Restored h'

variable {origin w : World} {hs : List Handle} {s : SessionId} {setup : Setup} {g h h₁ : Heap}
  {v u : Value} {vs us : List Value} {ds es σ T : List CellId} {n depth : Nat}

/-! ## Parts of mappings -/

theorem plainItems_values : ∀ {entries : List (String × Value)}, Value.PlainEntries entries →
    Value.PlainItems (Dict.values entries)
  | [], _ => trivial
  | (_, _) :: _, h => ⟨h.1, plainItems_values h.2⟩

theorem heightOfItems_values (entries : List (String × Value)) :
    Value.heightOfItems (Dict.values entries) = Value.heightOfEntries entries := by
  induction entries with
  | nil => rfl
  | cons entry entries ih => exact congrArg (max entry.2.height) ih

theorem zip_keys_values : ∀ entries : List (String × Value),
    (Dict.keys entries).zip (Dict.values entries) = entries
  | [] => rfl
  | e :: entries => congrArg (e :: ·) (zip_keys_values entries)

/-! ## Reading back -/

/-- What is seen is read in full, and the lent counts are given back. -/
def ReadsBack (w : World) (s : SessionId) (depth : Nat) : Prop :=
  ∀ {v u ds T g h es n}, Seen s g v u ds T → v.Plain → v.height ≤ depth → g.Quiet →
    Lent g h (ds ++ es) → ∃ g' h',
      (materialize depth u).run (w.put s h (n + ds.length)) = (.ok v, w.put s h' n) ∧
        Turned T g g' ∧ Lent g' h' es

theorem run_materializeItems (hdepth : ReadsBack w s depth) :
    ∀ {vs us ds T g h es n}, SeenItems s g vs us ds T → Value.PlainItems vs →
      Value.heightOfItems vs ≤ depth → g.Quiet → Lent g h (ds ++ es) → ∃ g' h',
        (us.mapM (materialize depth)).run (w.put s h (n + ds.length)) = (.ok vs, w.put s h' n) ∧
          Turned T g g' ∧ Lent g' h' es
  | _, _, _, _, g, h, es, n, .nil, _, _, _, hl => ⟨g, h, by rw [List.mapM_nil]; rfl, .refl _ g, hl⟩
  | _, _, _, _, g, h, es, n, @SeenItems.cons _ _ _ _ _ _ ds ds' _ _ c hv hvs,
      hplain, hheight, hq, hl => by
    obtain ⟨hhead, htail⟩ := Nat.max_le.1 hheight
    rw [List.append_assoc] at hl
    obtain ⟨g₁, h₁, hfirst, hturned, hl₁⟩ := hdepth (n := n + ds'.length) hv hplain.1 hhead hq hl
    obtain ⟨g₂, h₂, hrest, hturned', hl₂⟩ := run_materializeItems hdepth (n := n)
      (hvs.turned hturned.same) hplain.2 htail (hturned.quiet hq) hl₁
    refine ⟨g₂, h₂, ?_, (hturned.mono ?_).trans (hturned'.mono ?_), hl₂⟩
    · rw [List.length_append, Nat.add_comm ds.length, ← Nat.add_assoc, List.mapM_cons,
        run_bind_ok hfirst, run_bind_ok hrest]
      rfl
    · exact fun x hx => .tail _ (List.mem_append_left _ hx)
    · exact fun x hx => .tail _ (List.mem_append_right _ hx)

section
variable {start : Heap} (hk : w.KeptOn s setup start)
include hk

theorem readsBack : ∀ depth, ReadsBack w s depth
  | depth, _, _, _, _, g, h, es, n, .leaf (v := v) hs, _, _, _, hl => by
    have hrun : materialize depth v = pure v := by
      cases v <;> cases hs <;> cases depth <;> rfl
    exact ⟨g, h, by rw [hrun]; rfl, .refl _ g, hl⟩
  | depth + 1, _, _, _, _, g, h, es, n, .list (a := a) ha hpos hitems, hplain, hheight, hq, hl => by
    obtain ⟨us, ds, h₁, hread, hseen, hl₁⟩ :=
      run_arrayToList hk ha (n := n + 1) hq hl hpos hitems
    obtain ⟨g', h₂, hall, hturned, hl₂⟩ := run_materializeItems (readsBack depth) (n := n + 1) hseen
      hplain (Nat.le_of_succ_le_succ hheight) hq hl₁
    have ha' := (hturned.same a).of_array ha
    obtain ⟨h₃, hrelease, hl₃⟩ := hl₂.run_release ha' hpos
    refine ⟨g', h₃, ?_, hturned.mono fun x hx => .tail _ hx, hl₃⟩
    exact run_map_ok Value.list (hk.run_holding ((run_bind_ok hread).trans hall) hrelease)
  | depth + 1, .mapping entries, _, _, _, g, h, es, n, .mapping (a := a) ha hpos hkeys hitems,
      hplain, hheight, hq, hl => by
    obtain ⟨g₁, seen, ds, h₁, hread, hturned, hkeys', hseen, hl₁⟩ :=
      run_hashToDict hk (n := n + 1) hq hl ha hpos hkeys hplain.1 hitems
    have hheight' : Value.heightOfItems (Dict.values entries) ≤ depth := by
      rw [heightOfItems_values]
      exact Nat.le_of_succ_le_succ hheight
    obtain ⟨g₂, h₂, hall, hturned', hl₂⟩ := run_materializeItems (readsBack depth) (n := n + 1) hseen
      (plainItems_values hplain.2) hheight' (hturned.quiet hq) hl₁
    -- the walk has moved the cursor of the hash and left its entries alone
    obtain ⟨j, hj⟩ := ((hturned.same a).trans (hturned'.same a)).of_hash ha
    obtain ⟨h₃, hrelease, hl₃⟩ := hl₂.run_release hj hpos
    refine ⟨g₂, h₃, ?_, (hturned.mono ?_).trans (hturned'.mono fun x hx => .tail _ hx), hl₃⟩
    · refine run_map_ok Value.mapping (hk.run_holding ?_ hrelease)
      refine (run_bind_ok hread).trans ((run_bind_ok hall).trans ?_)
      rw [hkeys', zip_keys_values]
      rfl
    · exact fun x hx => List.mem_singleton.1 hx ▸ .head _

omit hk in
theorem run_release_planted {g' : Heap} {c : CellId} {x : Scalar} (hp : h.Planted g v c x T)
    (hturned : Turned T g g') (hl : Lent g' h₁ []) :
    ∃ h₂, (release c).run h₁ = (.ok (), h₂) ∧ h.Restored h₂ := by
  have hroot : h₁.cell? c = some ⟨1, none, .scalar x⟩ :=
    (hl.cell_nil c).trans ((hturned.same c).of_scalar hp.root)
  have hv : Encodes h₁ v x T :=
    (hp.encodes.frame fun y _ => hturned.same y).frame_eq fun y _ => hl.cell_nil y
  obtain ⟨h₂, hrelease, hfreed, hshrinks⟩ := hv.run_release hroot hp.nodup
  refine ⟨h₂, hrelease, fun y => ?_, ?_, ?_, ?_⟩
  · rw [hfreed]
    -- cells of the tree, cells from before, and numbers that were never given out
    by_cases hy : y ∈ c :: T
    · rw [if_pos hy, cell?_size_le h (hp.fresh y hy)]
    · rw [if_neg hy, hl.cell_nil, hturned.outside y fun hm => hy (.tail _ hm)]
      rcases Nat.lt_or_ge y.index h.cells.size with hlt | hge
      · exact hp.old y hlt
      · rw [hp.new y hge hy, cell?_size_le h hge]
  · rw [hshrinks.symbols, hl.symbols, hturned.symbols, hp.symbols]
  · rw [hshrinks.loaded, hl.loaded, hturned.loaded, hp.loaded]
  · rw [hshrinks.size, hl.size, hturned.size]
    exact hp.size

end

theorem run_toForeign (hstage : (w.session s).stage = .initialized) (v : Value) :
    (s.toForeign v).run w = (newCell s v).run w := by
  rw [SessionId.toForeign, run_bind_ok (run_ensureReady hstage crossing)]

/-- A session without a pending error takes plain data in and gives it back. -/
theorem World.KeptOn.roundTrips (hk : w.KeptOn s setup h) (hq : h.Quiet) (hplain : v.Plain) :
    RoundTrips w s h v := by
  -- the tree is planted, its root is seen, what is seen is read in full, and the tree is released
  obtain ⟨c, x, T, g, hnew, hp⟩ := run_newCell hk hplain (n := 0) hq
  have hq' := hp.toKeeps.quiet hq
  obtain ⟨u, ds, h₁, hvalue, hseen, hl₁⟩ :=
    run_value hk (n := 1) hq' (lent_refl g) hp.hasContent hp.encodes.carries
  rw [hk.put_self] at hnew
  refine ⟨⟨s, c⟩, w.put s g 1, (run_toForeign hk.stage v).trans hnew, fun depth hheight => ?_⟩
  obtain ⟨g', h₂, hback, hturned, hl₂⟩ := readsBack hk depth (n := 1) hseen hplain hheight hq' hl₁
  obtain ⟨h₃, hrelease, hrestored⟩ := run_release_planted hp hturned hl₂
  refine ⟨w.put s h₂ 1, h₃, ?_, hk.release hrelease, hrestored⟩
  rw [SessionId.toHost, if_pos rfl, run_bind_ok hvalue, hback]

/-! ## Pending errors -/

theorem Heap.Pending.grows (hp : h.Pending) (hg : h.Grows h₁) : h₁.Pending := by
  obtain ⟨c, hc, htrue⟩ := hp
  refine ⟨c, (errorCell_congr hg.symbols).trans hc, ?_⟩
  unfold isTrue at htrue ⊢
  cases hs : h.scalar c with
  | error e => rw [hs] at htrue; cases htrue
  | ok x => rwa [hg.scalar_ok hs, ← hs]

/-- The making of a cell fails while an error is pending, since it looks for one afterwards. -/
theorem run_cross_pending (request : Request Handle .cell) (hr : w.RunsOn s setup h)
    (hl : h.Leaky σ) (hp : h.Pending) {content : Content}
    (hanswer : Heap.answer setup (request.map Handle.cell) = alloc content) :
    ∃ e w', (cross s crossing request).run w = (.error e, w') := by
  have hplain : request.isPlain = true := by cases request <;> rfl
  obtain ⟨r, h₁, pending, h₂, w₂, hrun, -, -, hreports⟩ := run_cross_reports hr hl hplain crossing
  have hpending : h₁.Pending := by
    rw [hanswer] at hrun
    obtain rfl : (h.allocate content).2 = h₁ := congrArg Prod.snd hrun
    exact hp.grows (grows_allocate h content)
  cases hcross : (cross s crossing request).run w with
  | mk result w' =>
    rw [hcross] at hreports
    cases result with
    | error e => exact ⟨e, w', rfl⟩
    | ok c => exact absurd hpending (hreports.succeeds.1 ⟨c, rfl⟩).2

theorem run_newCell_pending (hr : w.RunsOn s setup h) (hl : h.Leaky σ) (hp : h.Pending)
    (hplain : v.Plain) : ∃ e w', (newCell s v).run w = (.error e, w') := by
  cases v with
  | nothing | bool | int | float | text | bytes => exact run_cross_pending _ hr hl hp rfl
  | list items =>
    obtain ⟨e, w', hrun⟩ := run_cross_pending .newArray hr hl hp rfl
    exact ⟨e, w', by rw [newCell, run_bind_error hrun]⟩
  | mapping entries =>
    obtain ⟨e, w', hrun⟩ := run_cross_pending .newHash hr hl hp rfl
    exact ⟨e, w', by rw [newCell, run_bind_error hrun]⟩
  | _ => cases hplain

/-- Wherever a host has come, plain data makes the round trip if and only if no error is pending, and
none is when no interpreter starts with one. -/
theorem deep_round_trip (hfresh : origin.Fresh) (hreach : Reached origin w hs)
    (hstage : (w.session s).stage = .initialized) (hkept : (w.session s).isKept = true)
    (hplain : v.Plain) : ∃ h, (w.session s).engine.interpreter.heap = some h ∧
      (RoundTrips w s h v ↔ ¬ h.Pending) ∧
      (h.Pending → ∃ e w', (s.toForeign v).run w = (.error e, w')) ∧
      ((∀ t, (origin.session t).StartsQuietly) → ¬ h.Pending) := by
  obtain ⟨h, hr, hl⟩ := (hreach.leaky hfresh).runsOn hstage
  have hheap : (w.session s).engine.interpreter.heap = some h := by rw [hr.engine]
  have hfails (hp : h.Pending) : ∃ e w', (s.toForeign v).run w = (.error e, w') := by
    rw [run_toForeign hstage]
    exact run_newCell_pending hr hl hp hplain
  refine ⟨h, hheap, ⟨fun htrips hp => ?_, fun hnot => ?_⟩, hfails, fun hquiet => ?_⟩
  · obtain ⟨c, w₁, hrun, -⟩ := htrips
    obtain ⟨e, w', hrun'⟩ := hfails hp
    rw [hrun] at hrun'
    cases hrun'
  · obtain ⟨lost, hs⟩ := hl
    exact World.KeptOn.roundTrips ⟨hr, hkept⟩ (hs.quiet_iff.2 hnot) hplain
  · exact (reached_not_pending_iff hfresh).2 hquiet w hs s h hreach hstage hheap

/-- Data of every plain sort, and lists and mappings in one another. -/
def nested : Value := .list [
  .nothing, .bool true, .int (-1), .float ⟨0x7ff8000000000001⟩, .text "ä", .bytes [0xff],
  .mapping [("b", .list []), ("a", .mapping [("", .text "0")])]]

def started (setup : Setup) : World :=
  (run [{ command := .session ⟨0⟩ .start }] (Console.single setup)).2.world

theorem deep_round_trip_nested : nested.Plain ∧ ∃ h, RoundTrips (started {}) ⟨0⟩ h nested := by
  have hplain : nested.Plain := by
    simp [nested, Value.Plain, Value.PlainItems, Value.PlainEntries, Dict.keys]
  have hquiet (t : SessionId) : ((Console.single {}).world.session t).StartsQuietly := by
    rcases session_single {} t with ht | ht <;> rw [ht]
    · exact Session.startsQuietly_of_quiet
        ⟨⟨1⟩, Heap.isTrue_errorCell (by decide +kernel) (by decide +kernel)⟩
    · exact startsQuietly_default
  obtain ⟨h, -, htrips, -, hnot⟩ := deep_round_trip (fresh_single {}).world
    (reached_run (fresh_single {}) [{ command := .session ⟨0⟩ .start }])
    (s := ⟨0⟩) (by decide +kernel) (by decide +kernel) hplain
  exact ⟨hplain, h, htrips.2 (hnot hquiet)⟩

/-- Where the start of an interpreter leaves an error behind, not even a number crosses. -/
theorem not_crossing_after_start : ¬ ∀ w hs, Reached leavingConsole.world w hs →
    (w.session ⟨0⟩).stage = .initialized →
      ∃ c w', (SessionId.toForeign ⟨0⟩ (.int 1)).run w = (.ok c, w') := by
  intro hcrosses
  obtain ⟨c, w', hrun⟩ := hcrosses _ _ (reached_run (fresh_single _)
    [{ command := .session ⟨0⟩ .start }]) (by decide +kernel)
  have hfails : ((SessionId.toForeign ⟨0⟩ (.int 1)).run (started (Setup.preload {} leaving))).1.isOk =
      false := by decide +kernel
  rw [show (SessionId.toForeign ⟨0⟩ (.int 1)).run (started (Setup.preload {} leaving)) = _ from hrun]
    at hfails
  cases hfails

end Embedding
