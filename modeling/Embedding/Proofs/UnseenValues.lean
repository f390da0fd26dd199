import Embedding.Proofs.Console.Runs
import Embedding.Proofs.CursorEnds
import Embedding.Proofs.Host.Displays
import Embedding.Proofs.Host.Presenting

/-!
# Values that the host does not see

Some cells have no value for the host. A walk over an array reports each of them and goes on, but a walk
over a hash stops at the first one, and the keys of such a hash are not to be had.
-/

namespace Embedding

open Heap

def HashCursor.items : (fuel : Nat) → HashCursor → HostM (List (Except HostError (String × Value)))
  | 0, _ => return []
  | fuel + 1, c => do
    match ← c.next with
    | (none, _) => return []
    | (some item, c) => return item :: (← items fuel c)

def ArrayCursor.items : (fuel : Nat) → ArrayCursor → HostM (List (Except HostError Value))
  | 0, _ => return []
  | fuel + 1, c => do
    match ← c.next with
    | (none, _) => return []
    | (some item, c) => return item :: (← items fuel c)

/-- The results up to the first error, which is the last. -/
def upToError {ε α : Type} : List (Except ε α) → List (Except ε α)
  | [] => []
  | .ok a :: rs => .ok a :: upToError rs
  | .error e :: _ => [.error e]

/-- The key of each entry whose value is seen, and why the others are not. -/
def seenKeys (entries : Dict CellId) (outcome : CellId → Except HostError Unit) :
    List (Except HostError String) := entries.map fun p => (outcome p.2).map fun _ => p.1

variable {origin w : World} {hs : List Handle} {h h' : Heap} {hash : HashView} {entries : Dict CellId}
  {i j : Nat} {key : String} {value : CellId} {outcome : CellId → Except HostError Unit}

/-- The items of an array, each with what it is for the host. -/
structure Heap.Itemizes (h : Heap) (a : CellId) (items : Array CellId)
    (outcome : CellId → Except HostError Unit) : Prop where
  sound : ∃ σ, h.Sound σ
  holds : h.items a = .ok items
  outcomes : ∀ c ∈ items.toList, h.presents c = outcome c

theorem abiding_itemizes (a : CellId) (items : Array CellId)
    (outcome : CellId → Except HostError Unit) : Heap.Abiding a (·.Itemizes a items outcome) := by
  rintro h h' σ ⟨⟨τ, hs⟩, hitems, hout⟩ hf hs' hlive
  have hitems' := hf.items_ok hitems hlive fun _ _ => id
  refine ⟨⟨σ, hs'⟩, hitems', fun c hc => ?_⟩
  rw [← hout c hc]
  exact hf.presents hs hs' (hs.isLive_item hitems hc) (hs'.isLive_item hitems' hc)

theorem seenKeys_cons (entry : String × CellId) (entries : Dict CellId) :
    seenKeys (entry :: entries) outcome =
      (outcome entry.2).map (fun _ => entry.1) :: seenKeys entries outcome := rfl

theorem mapM_id_ok {ε α : Type} (a : α) (rs : List (Except ε α)) :
    (Except.ok a :: rs).mapM id = (rs.mapM id).map (a :: ·) := by
  rw [List.mapM_cons]
  cases rs.mapM id <;> rfl

theorem fst_run_cons {α : Type} (a : α) (x : HostM (List α)) (w : World) :
    ((do return a :: (← x) : HostM (List α)).run w).1 = (x.run w).1.map (a :: ·) := by
  rw [run_bind]
  rcases x.run w with ⟨_ | _, _⟩ <;> rfl

theorem passed_started (hash : HashView) (i : Nat) :
    HashCursor.passed ⟨hash, .started⟩ i = i := rfl

theorem HashCursor.run_items_ended (fuel : Nat) (hash : HashView) (w : World) :
    (HashCursor.items fuel ⟨hash, .ended⟩).run w = (.ok [], w) := by
  cases fuel <;> rfl

section
variable (hfresh : origin.Fresh)
include hfresh

/-! ## Hashes -/

/-- What the host gets for a key is decided by the cell that the hash has there. -/
theorem Holds.get_presents (hh : Holds origin hash w hs h entries i)
    (hget : entries.get? key = some value) :
    ((hash.get key).run w).1.map (fun _ => ()) = h.presents value := by
  have hk := hh.arrived.keptOn hfresh hh.mem rfl
  obtain ⟨⟨lost, hsound⟩, hq, -⟩ := hh.arrived.good hfresh hh.mem rfl
  obtain ⟨p, hp, rfl⟩ := List.mem_map.mp (mem_values_of_get? hget)
  have hlive : h.isLive p.2 := hsound.isLive_value hh.hash hp
  obtain ⟨_, g, hretain, -, hg⟩ := gives_retain hlive _ hsound
  have hgrows := retain_grows h p.2
  rw [hretain] at hgrows
  have hf : h.Firm Turning g := (firm_refl (fun _ _ => .inl rfl) h).unchanged hgrows.firm
  have hlive' : g.isLive p.2 := hg.isLive (.head _)
  rw [hh.run_get hfresh hget hretain, run_value_presents hk (hq.grows hgrows) hg hlive']
  exact hf.presents hsound hg hlive hlive'

theorem Holds.outcomes {w' : World} {hs' : List Handle} (hh : Holds origin hash w hs h entries i)
    (hh' : Holds origin hash w' hs' h' entries j) (hf : h.Firm Turning h')
    (hout : ∀ p ∈ entries, h.presents p.2 = outcome p.2) :
    ∀ p ∈ entries, h'.presents p.2 = outcome p.2 := by
  intro p hp
  obtain ⟨⟨lost, hsound⟩, -, -⟩ := hh.arrived.good hfresh hh.mem rfl
  obtain ⟨⟨lost', hsound'⟩, -, -⟩ := hh'.arrived.good hfresh hh'.mem rfl
  rw [← hout p hp]
  exact hf.presents hsound hsound' (hsound.isLive_value hh.hash hp) (hsound'.isLive_value hh'.hash hp)

theorem Holds.next_presents (hh : Holds origin hash w hs h entries i)
    (hout : ∀ p ∈ entries, h.presents p.2 = outcome p.2) {c : HashCursor} (hc : c.hash = hash)
    (hwalk : c.walk ≠ .ended) : match entries[c.passed i]? with
      | none => ∃ w', c.next.run w = (.ok (none, { c with walk := .ended }), w')
      | some (key, value) => match outcome value with
        | .error e => ∃ w', c.next.run w = (.ok (some (.error e), { c with walk := .ended }), w')
        | .ok () => ∃ v w' h', c.next.run w =
            (.ok (some (.ok (key, v)), { c with walk := .started }), w') ∧
          Holds origin hash w' (v.handles ++ hs) h' entries (c.passed i + 1) ∧
          ∀ p ∈ entries, h'.presents p.2 = outcome p.2 := by
  obtain ⟨-, -, hkeyed⟩ := hh.arrived.good hfresh hh.mem rfl
  have hnodup : entries.keys.Nodup := hkeyed.hash hh.hash _ _ rfl
  obtain ⟨w', h', hstep⟩ := hh.run_step hfresh hc
  cases hentry : entries[c.passed i]? with
  | none =>
    rw [hentry] at hstep
    exact ⟨w', run_hashNext_end hstep.1 hwalk⟩
  | some entry =>
    obtain ⟨key, value⟩ := entry
    rw [hentry] at hstep
    obtain ⟨hrun, hh'⟩ := hstep
    have hget := hh.get_presents hfresh (Dict.get?_of_getElem? hnodup hentry)
    rw [hout _ (List.mem_of_getElem? hentry)] at hget
    dsimp only at hget ⊢
    cases hresult : ((hash.get key).run w).1 with
    | error e =>
      rw [hresult] at hget hrun
      rw [← hget]
      refine ⟨w', ?_⟩
      rw [HashCursor.next, if_neg hwalk]
      exact (run_bind_ok (HostM.run_attempt_eq hrun)).trans rfl
    | ok v =>
      rw [hresult] at hget hrun hh'
      rw [← hget]
      refine ⟨v, w', h', run_hashNext_entry hrun hwalk, hh', ?_⟩
      have hview : Ends c.step w _ := (show Arrived _ _ w ([] ++ _) h from hh.arrived).viewing hfresh
        hh.mem rfl (List.cons_subset.mpr ⟨hc ▸ hh.mem, List.nil_subset _⟩)
        fun hdealing => hdealing.accounts_hashStep c
      obtain ⟨h'', ha, hf, -⟩ := hview.of_run hrun
      cases ha.unique hh'.arrived.runs
      exact hh.outcomes hfresh hh' hf hout

theorem Holds.run_toKeys (fuel : Nat) (hh : Holds origin hash w hs h entries i)
    (hout : ∀ p ∈ entries, h.presents p.2 = outcome p.2) {c : HashCursor} (hc : c.hash = hash)
    (hwalk : c.walk ≠ .ended) (hfuel : entries.length - c.passed i < fuel) :
    ((c.toKeys fuel).run w).1 = (seenKeys (entries.drop (c.passed i)) outcome).mapM id := by
  induction fuel generalizing w hs h i c with
  | zero => omega
  | succ fuel ih =>
    have hnext := hh.next_presents hfresh hout hc hwalk
    rw [HashCursor.toKeys]
    by_cases hi : c.passed i < entries.length
    · rw [List.getElem?_eq_getElem hi] at hnext
      rw [List.drop_eq_getElem_cons hi, seenKeys_cons]
      dsimp only at hnext
      generalize entries[c.passed i] = entry at hnext ⊢
      cases hseen : outcome entry.2 with
      | error e =>
        rw [hseen] at hnext
        obtain ⟨w', hrun⟩ := hnext
        rw [run_bind_ok hrun]
        rfl
      | ok u =>
        rw [hseen] at hnext
        obtain ⟨v, w', h', hrun, hh', hout'⟩ := hnext
        -- the value is let go before the walk goes on
        have hends := hh'.arrived.copying hfresh hh.mem rfl (List.nil_subset hs)
          fun hdealing => hdealing.accounts_release v.handles
        have hreleased : (HostM.release v.handles).run w' = (.ok (), w'.releaseAll v.handles) := rfl
        obtain ⟨h'', ha, hf, hlive⟩ := hends.of_run hreleased
        have hh'' : Holds origin hash (w'.releaseAll v.handles) hs h'' entries (c.passed i + 1) :=
          ⟨ha, hh.mem, hf.hash_ok hh'.hash hlive⟩
        have hf : h'.Firm Turning h'' := (firm_refl (fun _ _ => .inl rfl) h').unchanged hf
        have hrest := ih (c := ⟨c.hash, .started⟩) hh'' (hh'.outcomes hfresh hh'' hf hout') hc (by simp)
          (by rw [passed_started]; omega)
        rw [passed_started] at hrest
        rw [run_bind_ok hrun]
        dsimp only
        rw [run_bind_ok hreleased]
        exact (fst_run_cons entry.1 _ _).trans (hrest ▸ (mapM_id_ok _ _).symm)
    · rw [List.getElem?_eq_none (by omega)] at hnext
      obtain ⟨w', hrun⟩ := hnext
      rw [run_bind_ok hrun, List.drop_eq_nil_of_le (by omega)]
      rfl

theorem Holds.run_items (fuel : Nat) (hh : Holds origin hash w hs h entries i)
    (hout : ∀ p ∈ entries, h.presents p.2 = outcome p.2) {c : HashCursor} (hc : c.hash = hash)
    (hwalk : c.walk ≠ .ended) (hfuel : entries.length - c.passed i < fuel) :
    ∃ items w', (c.items fuel).run w = (.ok items, w') ∧
      items.map (·.map Prod.fst) = upToError (seenKeys (entries.drop (c.passed i)) outcome) := by
  induction fuel generalizing w hs h i c with
  | zero => omega
  | succ fuel ih =>
    have hnext := hh.next_presents hfresh hout hc hwalk
    rw [HashCursor.items]
    by_cases hi : c.passed i < entries.length
    · rw [List.getElem?_eq_getElem hi] at hnext
      rw [List.drop_eq_getElem_cons hi, seenKeys_cons]
      dsimp only at hnext
      generalize entries[c.passed i] = entry at hnext ⊢
      cases hseen : outcome entry.2 with
      | error e =>
        rw [hseen] at hnext
        obtain ⟨w', hrun⟩ := hnext
        refine ⟨[.error e], w', ?_, rfl⟩
        rw [run_bind_ok hrun]
        exact (run_bind_ok (HashCursor.run_items_ended fuel c.hash w')).trans rfl
      | ok u =>
        rw [hseen] at hnext
        obtain ⟨v, w', h', hrun, hh', hout'⟩ := hnext
        obtain ⟨rest, w'', hrest, hkeys⟩ := ih (c := ⟨c.hash, .started⟩) hh' hout' hc (by simp)
          (by rw [passed_started]; omega)
        rw [passed_started] at hkeys
        refine ⟨.ok (entry.1, v) :: rest, w'', ?_, ?_⟩
        · rw [run_bind_ok hrun]
          exact (run_bind_ok hrest).trans rfl
        · rw [List.map_cons, hkeys]
          rfl
    · rw [List.getElem?_eq_none (by omega)] at hnext
      obtain ⟨w', hrun⟩ := hnext
      refine ⟨[], w', ?_, ?_⟩
      · rw [run_bind_ok hrun]
        rfl
      · rw [List.drop_eq_nil_of_le (by omega)]
        rfl

/-! ## Arrays -/

theorem Displays.get_presents {a : ArrayView} {items : Array CellId} {c : CellId}
    (hh : Displays (·.Itemizes a.cell.cell items outcome) origin a.cell w hs h)
    (hi : items[i]? = some c) : ((a.get i).run w).1.map (fun _ => ()) = outcome c := by
  have hk := hh.arrived.keptOn hfresh hh.mem rfl
  obtain ⟨⟨lost, hsound⟩, hq, -⟩ := hh.arrived.good hfresh hh.mem rfl
  have hmem : c ∈ items.toList := Array.mem_toList_iff.mpr (Array.mem_of_getElem? hi)
  have hlive : h.isLive c := hsound.isLive_item hh.shown.holds hmem
  obtain ⟨_, g, hretain, -, hg⟩ := gives_retain hlive _ hsound
  have hgrows := retain_grows h c
  rw [hretain] at hgrows
  have hfetch : (arrayFetch a.cell.cell i).run h = (.ok (some c), g) := by
    rw [arrayFetch, run_bind_ok (by rw [run_query, hh.shown.holds]), hi]
    exact (run_bind_ok hretain).trans rfl
  obtain ⟨hcross, -⟩ := hh.arrived.cross "array get" (.arrayFetch a.cell i) rfl
    (fun d hd => by rw [List.mem_singleton.mp hd]) (List.cons_subset.mpr ⟨hh.mem, List.nil_subset _⟩)
    hfetch (hq.grows hgrows)
  have hf : h.Firm Turning g := (firm_refl (fun _ _ => .inl rfl) h).unchanged hgrows.firm
  have hlive' : g.isLive c := hg.isLive (.head _)
  rw [ArrayView.get, run_bind_ok hcross]
  refine (congrArg (·.map fun _ => ()) (fst_run_takeValue _ _)).trans ?_
  rw [run_value_presents hk (hq.grows hgrows) hg hlive', ← hh.shown.outcomes c hmem]
  exact hf.presents hsound hg hlive hlive'

theorem Displays.run_items (fuel : Nat) {a : ArrayView} {items : Array CellId}
    (hh : Displays (·.Itemizes a.cell.cell items outcome) origin a.cell w hs h)
    (hfuel : items.size - i < fuel) :
    ∃ results w', (ArrayCursor.items fuel ⟨a, some i⟩).run w = (.ok results, w') ∧
      results.map (·.map fun _ => ()) = (items.toList.drop i).map outcome := by
  induction fuel generalizing w hs h i with
  | zero => omega
  | succ fuel ih =>
    have hlength := hh.arrived.run_length hfresh hh.mem
    rw [hh.shown.holds] at hlength
    have hnext := ArrayCursor.run_next ⟨a, some i⟩ w
    simp only [hlength] at hnext
    rw [ArrayCursor.items]
    by_cases hi : i < items.size
    · rw [if_pos hi] at hnext
      have hget := hh.get_presents hfresh (Array.getElem?_eq_getElem hi)
      have hview : Ends (a.get i) w _ := Displays.viewing hfresh (abiding_itemizes _ _ _) [] hh hh.mem
        fun hdealing => (hdealing.accounts_arrayGet a i).mono
          (List.cons_subset.mpr ⟨hh.mem, List.nil_subset _⟩)
      cases hrun : (a.get i).run w with
      | mk r w₁ =>
        rw [hrun] at hnext hget
        obtain ⟨h₁, hh₁⟩ := hview.of_run hrun
        obtain ⟨rest, w₂, hrest, hout⟩ := ih (i := i + 1) hh₁ (by omega)
        refine ⟨r :: rest, w₂, ?_, ?_⟩
        · rw [run_bind_ok hnext]
          exact (run_bind_ok hrest).trans rfl
        · have hlt : i < items.toList.length := by rwa [Array.length_toList]
          rw [List.map_cons, hout, List.drop_eq_getElem_cons hlt, List.map_cons, hget,
            Array.getElem_toList]
    · rw [if_neg hi] at hnext
      refine ⟨[], w, ?_, ?_⟩
      · rw [run_bind_ok hnext]
        rfl
      · rw [List.drop_eq_nil_of_le (by rw [Array.length_toList]; omega)]
        rfl

/-! ## Walks from the start -/

theorem Holds.cursor (hh : Holds origin hash w hs h entries i)
    (hout : ∀ p ∈ entries, h.presents p.2 = outcome p.2) :
    ∃ w' h', hash.cursor.run w = (.ok ⟨hash, .fresh⟩, w') ∧
      Holds origin hash w' (hash.cell :: hs) h' entries i ∧
      ∀ p ∈ entries, h'.presents p.2 = outcome p.2 := by
  have hends := (show Arrived _ _ w ([] ++ hs) h from hh.arrived).copying hfresh hh.mem rfl
    (List.Subset.refl hs) fun hdealing =>
      hdealing.accounts_clone (List.cons_subset.mpr ⟨hh.mem, List.nil_subset hs⟩)
  have hrun : (HostM.clone [hash.cell]).run w = (.ok (), w.clone hash.cell) := rfl
  obtain ⟨h', ha, hf, hlive⟩ := hends.of_run hrun
  have hh' : Holds origin hash (w.clone hash.cell) (hash.cell :: hs) h' entries i :=
    ⟨ha, .head _, hf.hash_ok hh.hash hlive⟩
  exact ⟨_, h', rfl, hh', hh.outcomes hfresh hh' ((firm_refl (fun _ _ => .inl rfl) h).unchanged hf) hout⟩

theorem Holds.run_keys (hh : Holds origin hash w hs h entries i)
    (hout : ∀ p ∈ entries, h.presents p.2 = outcome p.2) :
    (hash.keys.run w).1 = (seenKeys entries outcome).mapM id := by
  obtain ⟨w₁, h₁, hcursor, hh₁, hout₁⟩ := hh.cursor hfresh hout
  have hbound := hh.arrived.runs.run_itemBound_hash hh.hash
  have hkeys := hh₁.run_toKeys hfresh (entries.length + 1) hout₁ (c := ⟨hash, .fresh⟩) rfl (by simp)
    (Nat.lt_succ_of_le (Nat.sub_le ..))
  rw [HashView.keys, run_bind_ok hbound, run_bind_ok hcursor, HostM.run_holding]
  exact hkeys

theorem Holds.run_length (hh : Holds origin hash w hs h entries i) :
    hash.length.run w = (.ok entries.length, w) := by
  obtain ⟨-, hq, -⟩ := hh.arrived.good hfresh hh.mem rfl
  have hlength : (query (·.hashLength hash.cell.cell)).run h = (.ok entries.length, h) := by
    rw [run_query, hashLength, Heap.entries, hh.hash]
    rfl
  obtain ⟨hcross, -⟩ := hh.arrived.cross "hash length" (.hashLength hash.cell) rfl
    (fun c hc => by rw [List.mem_singleton.mp hc]) (List.cons_subset.mpr ⟨hh.mem, List.nil_subset _⟩)
    hlength hq
  exact hcross.trans (congrArg (Prod.mk _) hh.arrived.runs.put_self)

/-- What the host gets for each key decides what a walk over the hash gives. -/
theorem Holds.seenKeys_eq (hh : Holds origin hash w hs h entries i) : seenKeys entries h.presents =
    entries.keys.map fun key => ((hash.get key).run w).1.map fun _ => key := by
  obtain ⟨-, -, hkeyed⟩ := hh.arrived.good hfresh hh.mem rfl
  have hnodup : entries.keys.Nodup := hkeyed.hash hh.hash _ _ rfl
  rw [seenKeys, Dict.keys, List.map_map]
  refine List.map_congr_left fun p hp => ?_
  obtain ⟨n, hn⟩ := List.getElem?_of_mem hp
  rw [← hh.get_presents hfresh (Dict.get?_of_getElem? hnodup hn)]
  dsimp only [Function.comp]
  cases ((hash.get p.1).run w).1 <;> rfl

end

def World.items? (w : World) (a : ArrayView) : Option (Array CellId) :=
  (w.session a.cell.session).engine.interpreter.heap.bind fun h => (h.items a.cell.cell).toOption

/-- The keys of a hash are to be had if the host gets a value for each of them, and otherwise there is
the first error instead, whatever the length of the hash. A walk over the hash comes to the same error
and ends there. A walk over an array gives each item that the host can get and an error for each of the
others. -/
theorem walks_at_unseen (hfresh : origin.Fresh) (hreach : Reached origin w hs) :
    (∀ hash : HashView, hash.cell ∈ hs → (w.session hash.cell.session).stage = .initialized →
      ∀ entries i, w.entries? hash = some (entries, i) →
      (hash.length.run w).1 = .ok entries.keys.length ∧
      (hash.keys.run w).1 =
        (entries.keys.map fun key => ((hash.get key).run w).1.map fun _ => key).mapM id ∧
      ∃ items w', (do (← hash.cursor).items (entries.length + 1)).run w = (.ok items, w') ∧
        items.map (·.map Prod.fst) =
          upToError (entries.keys.map fun key => ((hash.get key).run w).1.map fun _ => key)) ∧
    ∀ a : ArrayView, a.cell ∈ hs → (w.session a.cell.session).stage = .initialized →
      ∀ items, w.items? a = some items →
      ∃ results w', (do (← a.cursor).items (items.size + 1)).run w = (.ok results, w') ∧
        results.map (·.map fun _ => ()) =
          (List.range items.size).map fun i => ((a.get i).run w).1.map fun _ => () := by
  refine ⟨fun hash hmem hstage entries i hentries => ?_, fun a hmem hstage items hitems => ?_⟩
  · obtain ⟨h, hr, -⟩ := (hreach.leaky hfresh).runsOn hstage
    rw [World.entries?, hr.engine] at hentries
    have hh : Holds origin hash w hs h entries i := ⟨⟨hreach, hr⟩, hmem, eq_ok_of_toOption hentries⟩
    have hout : ∀ p ∈ entries, h.presents p.2 = h.presents p.2 := fun _ _ => rfl
    rw [← hh.seenKeys_eq hfresh]
    refine ⟨?_, hh.run_keys hfresh hout, ?_⟩
    · rw [hh.run_length hfresh, Dict.keys, List.length_map]
    · obtain ⟨w₁, h₁, hcursor, hh₁, hout₁⟩ := hh.cursor hfresh hout
      obtain ⟨results, w', hrun, hkeys⟩ := hh₁.run_items hfresh (entries.length + 1) hout₁
        (c := ⟨hash, .fresh⟩) rfl (by simp) (Nat.lt_succ_of_le (Nat.sub_le ..))
      exact ⟨results, w', (run_bind_ok hcursor).trans hrun, hkeys⟩
  · obtain ⟨h, hr, lost, hsound⟩ := (hreach.leaky hfresh).runsOn hstage
    rw [World.items?, hr.engine] at hitems
    have hh : Displays (·.Itemizes a.cell.cell items h.presents) origin a.cell w hs h :=
      ⟨⟨hreach, hr⟩, hmem, ⟨_, hsound⟩, eq_ok_of_toOption hitems, fun _ _ => rfl⟩
    obtain ⟨h₁, hh₁⟩ := Displays.clone hfresh (abiding_itemizes _ _ _) hh
    obtain ⟨results, w', hrun, hout⟩ := hh₁.run_items hfresh (items.size + 1) (i := 0)
      (Nat.lt_succ_self _)
    have hcursor : a.cursor.run w = (.ok ⟨a, some 0⟩, w.clone a.cell) := rfl
    refine ⟨results, w', (run_bind_ok hcursor).trans hrun, hout.trans ?_⟩
    refine List.ext_getElem (by simp) fun n hn _ => ?_
    have hn : n < items.size := by simpa using hn
    simp only [List.drop_zero, List.getElem_map, List.getElem_range, Array.getElem_toList]
    exact (hh.get_presents hfresh (Array.getElem?_eq_getElem hn)).symm

open Console

/-- A sub that returns a hash with a reference to a scalar between two integers. -/
def mixedSetup : Setup :=
  Setup.preload {} {
    name := "P"
    subs := [
      ("mixed", fun _ => do
        let one ← Proc.perform (.newInt 1)
        let hidden ← Proc.perform (.newRef one)
        return [← Proc.perform (.newHash [("a", one), ("b", hidden), ("c", one)])])] }

def mixedStart : List Line := [
  { command := .session ⟨0⟩ (.call "P::mixed" []), into := some "h" }]

def mixedConsole : Console := (run mixedStart (.single mixedSetup)).2

def mixedHash : HashView := ⟨⟨⟨0⟩, ⟨9⟩⟩⟩

def mixedEntries : Dict CellId := [("a", ⟨10⟩), ("b", ⟨11⟩), ("c", ⟨12⟩)]

/-- The walk gives the first entry and the error of the second one. -/
theorem walks_at_unseen_mixed :
    (mixedHash.length.run mixedConsole.world).1 = .ok 3 ∧
      ∃ items w', (do (← mixedHash.cursor).items 4).run mixedConsole.world = (.ok items, w') ∧
        items.length = 2 := by
  have hreach : Reached (Console.single mixedSetup).world mixedConsole.world mixedConsole.handles := by
    rw [mixedConsole]
    exact reached_run (fresh_single _) mixedStart
  obtain ⟨hlength, -, items, w', hrun, hitems⟩ := (walks_at_unseen (fresh_single _).world hreach).1
    mixedHash (by decide +kernel) (by decide +kernel) mixedEntries 0 (by decide +kernel)
  refine ⟨hlength, items, w', hrun, ?_⟩
  have hcount := congrArg List.length hitems
  rw [List.length_map] at hcount
  rw [hcount]
  decide +kernel

/-- One value that is not seen hides all keys of a hash. -/
theorem keys_hidden : ¬ ∀ hash : HashView, hash.cell ∈ mixedConsole.handles →
    (mixedConsole.world.session hash.cell.session).stage = .initialized →
    ∀ entries i, mixedConsole.world.entries? hash = some (entries, i) →
      (hash.keys.run mixedConsole.world).1 = .ok entries.keys := by
  intro hkeys
  have hshown := hkeys mixedHash (by decide +kernel) (by decide +kernel) mixedEntries 0 (by decide +kernel)
  have hfails : (mixedHash.keys.run mixedConsole.world).1.toOption = none := by decide +kernel
  rw [hshown] at hfails
  cases hfails

end Embedding
