import Embedding.Proofs.Host.Arrivals
import Embedding.Proofs.Host.Containers
import Embedding.Proofs.Walks.Places
import Mathlib.Data.List.Infix
import Mathlib.Data.List.Perm.Subperm

/-!
# Walks over hashes that change meanwhile

A host walks over a hash, and between the steps it stores into the hash and deletes from it. No key
comes twice unless it was deleted and stored again, and every key that stays comes once, except that
a deletion behind the walk makes it miss the key that would have been next.
-/

namespace Embedding

open Heap

/-- What a host does in a walk over a hash. -/
inductive Deed
  | next
  /-- The value is taken over. -/
  | set (key : String) (v : Value)
  | delete (key : String)
  | clone (h : Handle)
  | release (h : Handle)

/-- A walk over a hash, with the world and the handles that the host has there. -/
structure Tour where
  world : World
  handles : List Handle
  cursor : HashCursor

namespace Tour

def hash (t : Tour) : HashView := t.cursor.hash

def act (t : Tour) : Deed → Move × Tour
  | .next =>
    match t.cursor.next.run t.world with
    | (.ok (some (.ok (key, v)), cursor), world) =>
      (.yielded key v, ⟨world, v.handles ++ t.handles, cursor⟩)
    | (.ok (some (.error e), cursor), world) => (.failed e, ⟨world, e.handles ++ t.handles, cursor⟩)
    | (.ok (none, cursor), world) => (.ended, ⟨world, t.handles, cursor⟩)
    | (.error e, world) => (.failed e, ⟨world, e.handles ++ t.handles, t.cursor⟩)
  | .set key v =>
    match (t.hash.set key v).run t.world with
    | (.ok (), world) => (.stored key, ⟨world, t.handles.diff v.handles, t.cursor⟩)
    | (.error e, world) =>
      (.rejected e, ⟨world, e.handles ++ t.handles.diff v.handles, t.cursor⟩)
  | .delete key =>
    let (r, world) := (t.hash.delete key).run t.world
    (.deleted key,
      ⟨world, hostStakes (fun v => Value.handlesOfItems v.toList) r ++ t.handles, t.cursor⟩)
  | .clone h => (.shared, ⟨t.world.clone h, h :: t.handles, t.cursor⟩)
  | .release h => (.shared, ⟨t.world.release h, t.handles.erase h, t.cursor⟩)

def run (t : Tour) (deeds : List Deed) : Tour := deeds.foldl (fun t deed => (t.act deed).2) t

def moves : Tour → List Deed → List Move
  | _, [] => []
  | t, deed :: deeds => (t.act deed).1 :: moves (t.act deed).2 deeds

/-- The host owns what it gives away, and keeps a handle in the hash. -/
def Owns (t : Tour) : Deed → Prop
  | .next | .delete _ => True
  | .set _ v => v.handles.Subperm t.handles ∧ t.hash.cell ∈ t.handles.diff v.handles
  | .clone h => h ∈ t.handles
  | .release h => h ∈ t.handles ∧ t.hash.cell ∈ t.handles.erase h

def OwnsAll : Tour → List Deed → Prop
  | _, [] => True
  | t, deed :: deeds => t.Owns deed ∧ OwnsAll (t.act deed).2 deeds

end Tour

def World.entries? (w : World) (hash : HashView) : Option (Dict CellId × Nat) :=
  (w.session hash.cell.session).engine.interpreter.heap.bind fun h => (h.hash hash.cell.cell).toOption

/-- How many entries lie behind the cursor, which rewinds first if it is fresh. -/
def HashCursor.passed (c : HashCursor) (cursor : Nat) : Nat := if c.walk = .fresh then 0 else cursor

def Tour.place (t : Tour) : Place :=
  match t.world.entries? t.hash with
  | some (entries, cursor) => ⟨entries.keys, t.cursor.passed cursor⟩
  | none => ⟨[], 0⟩

variable {origin w : World} {hs : List Handle} {h : Heap} {hash : HashView} {entries : Dict CellId}
  {cursor : Nat} {key : String} {value : CellId}

/-! ## Operations on the hash -/

theorem World.releaseAll_singleton (c : Handle) (w : World) : w.releaseAll [c] = w.release c := by
  rw [World.releaseAll, List.foldl_cons, List.foldl_nil]

theorem fst_run_takeValue (h : Handle) (w : World) :
    ((Value.ofOption <$> takeValue? (some h)).run w).1 = (h.value.run w).1 := by
  have hheld : ((HostM.holding [h] h.value).run w).1 = (h.value.run w).1 := by rw [HostM.run_holding]
  rw [takeValue?, map_eq_pure_bind, map_eq_pure_bind, run_bind, run_bind, ← hheld]
  rcases (HostM.holding [h] h.value).run w with ⟨_ | _, _⟩ <;> rfl

/-- The entry at the place of the iteration, which goes on behind it. -/
def HashView.advance (hash : HashView) : HostM (Option (String × Value)) := do
  match ← cross hash.cell.session "hash iterate" (.hashNext hash.cell) with
  | some (key, value) => return some (key, ← HostM.holding [value] value.value)
  | none => return none

/-- The host has come to a world in which the session of the hash runs, and holds the hash. -/
structure Holds (origin : World) (hash : HashView) (w : World) (hs : List Handle) (h : Heap)
    (entries : Dict CellId) (cursor : Nat) : Prop where
  arrived : Arrived origin hash.cell.session w hs h
  mem : hash.cell ∈ hs
  hash : h.hash hash.cell.cell = .ok (entries, cursor)

section
variable (hfresh : origin.Fresh)
include hfresh

theorem Holds.copying {α : Type} (taken : List Handle) {b σ : List Handle} {x : HostM α} {given : α → List Handle}
    (hh : Holds origin hash w (taken ++ σ) h entries cursor) (hmem : hash.cell ∈ σ) (hb : b ⊆ σ)
    (hx : ∀ {may : Permission} {I}, Dealing may I → ∀ [Reads may] [Makes may hash.cell.session I],
      Accounts I b x taken given) :
    Ends x w fun r w' => ∃ h', Holds origin hash w' (hostStakes given r ++ σ) h' entries cursor := by
  have hends := hh.arrived.copying hfresh hmem rfl hb hx
  unfold Ends at hends ⊢
  obtain ⟨h', ha, hf, hlive⟩ := hends
  exact ⟨h', ha, List.mem_append_right _ hmem, hf.hash_ok hh.hash hlive⟩

theorem Holds.clone {c : Handle} (hh : Holds origin hash w hs h entries cursor) (hc : c ∈ hs) :
    ∃ h', Holds origin hash (w.clone c) (c :: hs) h' entries cursor := by
  have hends : Ends (HostM.clone [c]) w _ := hh.copying hfresh [] hh.mem
    (List.Subset.refl hs) fun hdealing =>
      hdealing.accounts_clone (List.cons_subset.2 ⟨hc, List.nil_subset hs⟩)
  have hrun : (HostM.clone [c]).run w = (.ok (), w.clone c) := rfl
  exact hends.of_run hrun

theorem Holds.release {c : Handle} (hh : Holds origin hash w (c :: hs) h entries cursor)
    (hmem : hash.cell ∈ hs) : ∃ h', Holds origin hash (w.release c) hs h' entries cursor := by
  have hends : Ends (HostM.release [c]) w _ := hh.copying hfresh [c] hmem
    (List.nil_subset hs) fun hdealing => hdealing.accounts_release [c]
  have hrun : (HostM.release [c]).run w = (.ok (), w.releaseAll [c]) := rfl
  rw [World.releaseAll_singleton] at hrun
  exact hends.of_run hrun

theorem Holds.run_get (hh : Holds origin hash w hs h entries cursor)
    (hget : entries.get? key = some value) {g : Heap} (hretain : (retain value).run h = (.ok (), g)) :
    ((hash.get key).run w).1 =
      ((Handle.value ⟨hash.cell.session, value⟩).run (w.put hash.cell.session g 1)).1 := by
  obtain ⟨-, hq, -⟩ := hh.arrived.good hfresh hh.mem rfl
  have hgrows := retain_grows h value
  rw [hretain] at hgrows
  obtain ⟨hrun, -⟩ := hh.arrived.cross "hash get" (.hashFetch hash.cell key) rfl
    (fun a ha => by rw [List.mem_singleton.1 ha]) (List.cons_subset.2 ⟨hh.mem, List.nil_subset _⟩)
    (run_hashFetch hh.hash hget hretain) (hq.grows hgrows)
  rw [HashView.get, run_bind_ok hrun]
  exact fst_run_takeValue _ _

theorem Holds.run_advance (hh : Holds origin hash w hs h entries cursor) {w₁ : World} {g h₁ : Heap}
    {S : List CellId} {i : Nat} (hh₁ : Holds origin hash w₁ hs h₁ entries i) (ht : Turned S h h₁)
    (hw₁ : w₁ = w.put hash.cell.session h₁ 0) (hnext : entries[i]? = some (key, value))
    (hretain : (retain value).run h = (.ok (), g)) :
    ∃ h₂ S', Turned S' g h₂ ∧
      Holds origin hash (w.put hash.cell.session h₂ 1) (⟨hash.cell.session, value⟩ :: hs) h₂ entries
        (i + 1) ∧
      hash.advance.run w₁ = (do
        let v ← HostM.holding [⟨hash.cell.session, value⟩] (Handle.value ⟨hash.cell.session, value⟩)
        return some (key, v) : HostM (Option (String × Value))).run (w.put hash.cell.session h₂ 1) := by
  obtain ⟨-, hq, -⟩ := hh.arrived.good hfresh hh.mem rfl
  have hgrows := retain_grows h value
  rw [hretain] at hgrows
  obtain ⟨h₂, S', hrun, hc₂, ht₂⟩ := Heap.run_hashNext ht hretain hh₁.hash hnext
  obtain ⟨hcross, ha₂⟩ := hh₁.arrived.cross "hash iterate" (.hashNext hash.cell) rfl
    (fun a ha => by rw [List.mem_singleton.1 ha]) (List.cons_subset.2 ⟨hh₁.mem, List.nil_subset _⟩)
    hrun (ht₂.quiet (hq.grows hgrows))
  have hw₂ : w₁.put hash.cell.session h₂ 1 = w.put hash.cell.session h₂ 1 := by
    rw [hw₁, World.put_put, Nat.zero_add]
  refine ⟨h₂, S', ht₂, ⟨hw₂ ▸ ha₂, List.mem_cons_of_mem _ hh.mem, hc₂⟩, ?_⟩
  rw [HashView.advance, run_bind_ok hcross]
  exact congrArg _ hw₂

theorem Holds.run_next (hh : Holds origin hash w hs h entries cursor) {w₁ : World} {h₁ : Heap}
    {S : List CellId} {i : Nat} (hh₁ : Holds origin hash w₁ hs h₁ entries i) (ht : Turned S h h₁)
    (hw₁ : w₁ = w.put hash.cell.session h₁ 0) (hnext : entries[i]? = some (key, value)) :
    ∃ w' h', hash.advance.run w₁ = (((hash.get key).run w).1.map fun v => some (key, v), w') ∧
      Holds origin hash w' (hostStakes Value.handles ((hash.get key).run w).1 ++ hs) h' entries
        (i + 1) := by
  obtain ⟨⟨lost, hs'⟩, hq, hkeyed⟩ := hh.arrived.good hfresh hh.mem rfl
  have hnodup : entries.keys.Nodup := hkeyed.hash hh.hash _ _ rfl
  obtain ⟨_, g, hretain, -, hg⟩ :=
    gives_retain (hs'.isLive_value hh.hash (List.mem_of_getElem? hnext)) _ hs'
  have hgrows := retain_grows h value
  rw [hretain] at hgrows
  obtain ⟨h₂, S', ht₂, hh₂, hadvance⟩ := hh.run_advance hfresh hh₁ ht hw₁ hnext hretain
  -- the value is read as it would be after a fetch, since only a place differs
  let cell : Handle := ⟨hash.cell.session, value⟩
  have hw₂ : w.put hash.cell.session h₂ 1 =
      (w.put hash.cell.session g 1).put hash.cell.session h₂ 0 := by rw [World.put_put]
  have htwins : World.Twins cell.session (w.put hash.cell.session g 1)
      (w.put hash.cell.session h₂ 1) :=
    ⟨_, g, h₂, _, S', hh.arrived.runs.put g 1, hw₂, ht₂, hg, hq.grows hgrows⟩
  have hvalue : ((HostM.holding [cell] cell.value).run (w.put hash.cell.session h₂ 1)).1 =
      ((hash.get key).run w).1 := by
    rw [HostM.run_holding, hh.run_get hfresh (Dict.get?_of_getElem? hnodup hnext) hretain]
    exact htwins.fst_value
  have hends : Ends (HostM.holding [cell] cell.value) (w.put hash.cell.session h₂ 1) _ :=
    hh₂.copying hfresh [cell] hh.mem (List.nil_subset hs) fun hdealing =>
      hdealing.holding [cell] (hdealing.accounts_value cell)
  unfold Ends at hends
  cases hread : (HostM.holding [cell] cell.value).run (w.put hash.cell.session h₂ 1) with
  | mk r w' =>
    rw [hread] at hvalue hends
    obtain ⟨h', hh'⟩ := hends
    refine ⟨w', h', ?_, hvalue ▸ hh'⟩
    rw [hadvance, run_bind, hread, ← hvalue]
    cases r <;> rfl

theorem Holds.run_next_end {w₁ : World} {h₁ : Heap} {i : Nat}
    (hh₁ : Holds origin hash w₁ hs h₁ entries i) (hend : entries[i]? = none) :
    ∃ w', hash.advance.run w₁ = (.ok none, w') ∧
      Holds origin hash w' hs h₁ entries i := by
  obtain ⟨-, hq, -⟩ := hh₁.arrived.good hfresh hh₁.mem rfl
  obtain ⟨hcross, ha⟩ := hh₁.arrived.cross "hash iterate" (.hashNext hash.cell) rfl
    (fun a ha => by rw [List.mem_singleton.1 ha]) (List.cons_subset.2 ⟨hh₁.mem, List.nil_subset _⟩)
    (Heap.run_hashNext_end hh₁.hash hend) hq
  refine ⟨_, ?_, ha, hh₁.mem, hh₁.hash⟩
  rw [HashView.advance, run_bind_ok hcross]
  rfl

theorem Holds.run_rewind {c : HashCursor} (hh : Holds origin c.hash w hs h entries cursor) :
    ∃ w₁ h₁ S, c.step.run w = c.hash.advance.run w₁ ∧
      Holds origin c.hash w₁ hs h₁ entries (c.passed cursor) ∧ Turned S h h₁ ∧
      w₁ = w.put c.hash.cell.session h₁ 0 := by
  unfold HashCursor.step HashCursor.passed
  by_cases hfirst : c.walk = .fresh
  · obtain ⟨-, hq, -⟩ := hh.arrived.good hfresh hh.mem rfl
    obtain ⟨h₁, hrun, hc₁, ht⟩ := run_hashRewind hh.hash
    obtain ⟨hcross, ha⟩ := hh.arrived.cross "hash iterate" (.hashRewind c.hash.cell) rfl
      (fun a ha => by rw [List.mem_singleton.1 ha])
      (List.cons_subset.2 ⟨hh.mem, List.nil_subset _⟩) hrun (ht.quiet hq)
    refine ⟨_, h₁, _, ?_, ⟨ha, hh.mem, ?_⟩, ht, rfl⟩
    · rw [if_pos hfirst]
      exact (run_bind_ok hcross).trans rfl
    · rw [if_pos hfirst]
      exact hc₁
  · refine ⟨w, h, [], ?_, ?_, .refl _ h, (hh.arrived.runs.put_self).symm⟩
    · exact congrArg (fun x : HostM (Option (String × Value)) => x.run w) (if_neg hfirst)
    · rw [if_neg hfirst]
      exact hh

theorem Holds.run_step (hh : Holds origin hash w hs h entries cursor) {c : HashCursor}
    (hc : c.hash = hash) : ∃ w' h', match entries[c.passed cursor]? with
      | none => c.step.run w = (.ok none, w') ∧ Holds origin hash w' hs h' entries (c.passed cursor)
      | some (key, _) =>
        c.step.run w = (((hash.get key).run w).1.map fun v => some (key, v), w') ∧
          Holds origin hash w' (hostStakes Value.handles ((hash.get key).run w).1 ++ hs) h' entries
            (c.passed cursor + 1) := by
  subst hc
  obtain ⟨w₁, h₁, S, hstep, hh₁, ht, hw₁⟩ := hh.run_rewind hfresh
  cases hnext : entries[c.passed cursor]? with
  | none =>
    obtain ⟨w', hrun, hh'⟩ := hh₁.run_next_end hfresh hnext
    exact ⟨w', h₁, hstep.trans hrun, hh'⟩
  | some entry =>
    obtain ⟨w', h', hrun, hh'⟩ := hh.run_next hfresh hh₁ ht hw₁ hnext
    exact ⟨w', h', hstep.trans hrun, hh'⟩

theorem Holds.run_set {v : Value} (hh : Holds origin hash w (v.handles ++ hs) h entries cursor)
    (hmem : hash.cell ∈ hs) (key : String) : ∃ w' h',
      (∃ item, (hash.set key v).run w = (.ok (), w') ∧
        Holds origin hash w' hs h' (entries.insert key item) cursor) ∨
      ∃ e, (hash.set key v).run w = (.error e, w') ∧
        Holds origin hash w' (e.handles ++ hs) h' entries cursor := by
  have hends : Ends (HostM.holding v.handles (newCell hash.cell.session v)) w _ :=
    hh.copying hfresh v.handles hmem (List.nil_subset hs) fun hdealing => hdealing.holding v.handles
      ((hdealing.accounts_newCell v).mono (List.subset_append_left ..))
  unfold Ends at hends
  cases hnew : (HostM.holding v.handles (newCell hash.cell.session v)).run w with
  | mk r w₁ =>
    rw [hnew] at hends
    obtain ⟨h₁, hh₁⟩ := hends
    cases r with
    | error e => exact ⟨w₁, h₁, .inr ⟨e, run_bind_error hnew, hh₁⟩⟩
    | ok item =>
      have hh₁ : Holds origin hash w₁ (item :: hs) h₁ entries cursor := hh₁
      obtain ⟨_, hcell⟩ := HostM.holding_ok hnew
      have hitem : item.session = hash.cell.session := newCell_session hcell
      obtain ⟨⟨lost, hs₁⟩, hq₁, -⟩ := hh₁.arrived.good hfresh hh₁.mem rfl
      have hlive : h₁.isLive item.cell := hs₁.isLive
        (List.mem_append_right _ (hitem ▸ mem_cellsOf (List.mem_cons_self ..)))
      obtain ⟨h₂, stored, hrun, hs₂, hc₂, hf⟩ := run_hashStore hs₁ hh₁.hash
        (List.mem_append_right _ (mem_cellsOf hh₁.mem)) hlive key
      obtain ⟨hcross, ha₂⟩ := hh₁.arrived.cross "hash set" (.hashStore hash.cell key item)
        rfl (by simp [Request.cells, hitem])
        (List.cons_subset.2 ⟨hh₁.mem, List.cons_subset.2 ⟨List.mem_cons_self .., List.nil_subset _⟩⟩)
        hrun (hq₁.besides hs₁ hs₂ hh₁.hash hf)
      have hh₂ : Holds origin hash (w₁.put hash.cell.session h₂ 0) (item :: hs) h₂
        (entries.insert key stored) cursor := ⟨ha₂, hh₁.mem, hc₂⟩
      obtain ⟨h₃, hh₃⟩ := hh₂.release hfresh hmem
      refine ⟨(w₁.put hash.cell.session h₂ 0).release item, h₃, .inl ⟨stored, ?_, hh₃⟩⟩
      have hheld := HostM.run_holding [item]
        (cross hash.cell.session "hash set" (.hashStore hash.cell key item)) w₁
      rw [hcross, World.releaseAll_singleton] at hheld
      rw [HashView.set, run_bind_ok hnew]
      exact hheld

theorem Holds.run_delete (hh : Holds origin hash w hs h entries cursor) (key : String) :
    ∃ r w' h', (hash.delete key).run w = (r, w') ∧
      Holds origin hash w' (hostStakes (fun v => Value.handlesOfItems v.toList) r ++ hs) h'
        (entries.erase key) cursor := by
  obtain ⟨⟨lost, hs'⟩, hq, -⟩ := hh.arrived.good hfresh hh.mem rfl
  obtain ⟨h₁, hrun, hc₁, hf⟩ := run_hashDelete hh.hash key
  obtain ⟨-, -, hs₁⟩ := (settles_hashDelete h hash.cell.cell key _ hs').of_run hrun
  obtain ⟨hcross, ha₁⟩ := hh.arrived.cross "hash delete" (.hashDelete hash.cell key) rfl
    (fun a ha => by rw [List.mem_singleton.1 ha]) (List.cons_subset.2 ⟨hh.mem, List.nil_subset _⟩)
    hrun (hq.besides hs' hs₁ hh.hash hf)
  let found : Option Handle := (entries.get? key).map fun c => ⟨hash.cell.session, c⟩
  have hh₁ : Holds origin hash (w.put hash.cell.session h₁ (entries.get? key).toList.length)
      (found.toList ++ hs) h₁ (entries.erase key) cursor := by
    refine ⟨?_, List.mem_append_right _ hh.mem, hc₁⟩
    unfold found
    rw [Option.toList_map]
    exact ha₁
  have hends := hh₁.copying (x := takeValue? found) hfresh _ hh.mem (List.nil_subset hs)
    fun hdealing => hdealing.accounts_takeValue? found
  unfold Ends at hends
  obtain ⟨h', hh'⟩ := hends
  refine ⟨_, _, h', ?_, hh'⟩
  rw [HashView.delete, run_bind_ok hcross]
  rfl

end

/-! ## Deeds -/

/-- The walk is over a hash that the host holds, in a world that it has come to. -/
def Tour.OnHash (origin : World) (t : Tour) : Prop :=
  ∃ h entries cursor, Holds origin t.hash t.world t.handles h entries cursor

theorem Holds.place {t : Tour} (hh : Holds origin t.hash t.world t.handles h entries cursor) :
    t.place = ⟨entries.keys, t.cursor.passed cursor⟩ := by
  have hentries : t.world.entries? t.hash = some (entries, cursor) := by
    rw [World.entries?, hh.arrived.runs.engine]
    change (h.hash t.hash.cell.cell).toOption = _
    rw [hh.hash]
    rfl
  rw [Tour.place, hentries]

theorem HashCursor.run_next (c : HashCursor) (w : World) : c.next.run w =
    if c.walk = .ended then (.ok (none, c), w)
    else match c.step.run w with
      | (.ok (some entry), w') => (.ok (some (.ok entry), { c with walk := .started }), w')
      | (.ok none, w') => (.ok (none, { c with walk := .ended }), w')
      | (.error e, w') => (.ok (some (.error e), { c with walk := .ended }), w') := by
  unfold HashCursor.next
  split
  · rfl
  · rw [run_bind_ok (HostM.run_attempt _ w)]
    rcases c.step.run w with ⟨_ | _ | _, _⟩ <;> rfl

structure Tour.Step (origin : World) (t : Tour) (m : Move) (t' : Tour) : Prop where
  onHash : t'.OnHash origin
  hash : t'.hash = t.hash
  place : t'.place = t.place.after m
  yields : ∀ key v, m = .yielded key v →
    t.place.next? = some key ∧ ((t.hash.get key).run t.world).1 = .ok v
  ends : m = .ended → t.cursor.walk ≠ .ended → t.place.next? = none
  goesOn : m.GoesOn → t.cursor.walk ≠ .ended → t'.cursor.walk ≠ .ended

theorem step_next (hfresh : origin.Fresh) {t : Tour} (ht : t.OnHash origin) :
    t.Step origin (t.act .next).1 (t.act .next).2 := by
  obtain ⟨h, entries, cursor, hh⟩ := ht
  have hnext := t.cursor.run_next t.world
  by_cases hended : t.cursor.walk = .ended
  · rw [if_pos hended] at hnext
    simp only [Tour.act, hnext]
    exact ⟨⟨h, entries, cursor, hh⟩, rfl, rfl, nofun, fun _ hn => absurd hended hn, fun h => h.elim⟩
  rw [if_neg hended] at hnext
  obtain ⟨w', h', hstep⟩ := hh.run_step hfresh (c := t.cursor) rfl
  have hkey : t.place.next? = (entries[t.cursor.passed cursor]?).map Prod.fst := by
    rw [hh.place]
    exact List.getElem?_map
  cases hentry : entries[t.cursor.passed cursor]? with
  | none =>
    rw [hentry] at hstep hkey
    obtain ⟨hrun, hh'⟩ := hstep
    rw [hrun] at hnext
    simp only [Tour.act, hnext]
    refine ⟨⟨h', _, _, hh'⟩, rfl, ?_, nofun, fun _ _ => hkey, fun h => h.elim⟩
    rw [Holds.place hh', hh.place]
    rfl
  | some entry =>
    obtain ⟨key, value⟩ := entry
    rw [hentry] at hstep hkey
    obtain ⟨hrun, hh'⟩ := hstep
    rw [hrun] at hnext
    cases hget : ((t.hash.get key).run t.world).1 with
    | ok v =>
      rw [hget] at hnext hh'
      simp only [Except.map] at hnext
      simp only [Tour.act, hnext]
      refine ⟨⟨h', _, _, hh'⟩, rfl, ?_, ?_, nofun, fun _ _ => nofun⟩
      · rw [Holds.place hh', hh.place]
        rfl
      · rintro _ _ ⟨⟩
        exact ⟨hkey, hget⟩
    | error e =>
      rw [hget] at hnext hh'
      simp only [Except.map] at hnext
      simp only [Tour.act, hnext]
      refine ⟨⟨h', _, _, hh'⟩, rfl, ?_, nofun, nofun, fun h => h.elim⟩
      rw [Holds.place hh', hh.place]
      rfl

theorem Holds.step {t : Tour} (hh : Holds origin t.hash t.world t.handles h entries cursor)
    {w' : World} {hs' : List Handle} {h' : Heap} {entries' : Dict CellId} {m : Move}
    (hh' : Holds origin t.hash w' hs' h' entries' cursor) (hm : ∀ key v, m ≠ .yielded key v)
    (hended : m ≠ .ended)
    (hafter : ∀ n, Place.after ⟨entries.keys, n⟩ m = ⟨entries'.keys, n⟩) :
    t.Step origin m ⟨w', hs', t.cursor⟩ where
  onHash := ⟨h', entries', cursor, hh'⟩
  hash := rfl
  place := by
    rw [hh.place, hafter]
    exact Holds.place (t := ⟨w', hs', t.cursor⟩) hh'
  yields key v he := absurd he (hm key v)
  ends he := absurd he hended
  goesOn _ hn := hn

theorem step_act (hfresh : origin.Fresh) {t : Tour} (ht : t.OnHash origin) {deed : Deed}
    (howns : t.Owns deed) : t.Step origin (t.act deed).1 (t.act deed).2 := by
  cases deed with
  | next => exact step_next hfresh ht
  | set key v =>
    obtain ⟨h, entries, cursor, hh⟩ := ht
    have hperm : t.handles.Perm (v.handles ++ t.handles.diff v.handles) :=
      (List.subperm_append_diff_self_of_count_le fun x _ => howns.1.count_le x).symm
    have hh' : Holds origin t.hash t.world (v.handles ++ t.handles.diff v.handles) h entries cursor :=
      ⟨⟨hh.arrived.reach.perm hperm, hh.arrived.runs⟩, hperm.subset hh.mem, hh.hash⟩
    obtain ⟨w', h', ⟨item, hrun, hh₁⟩ | ⟨e, hrun, hh₁⟩⟩ := hh'.run_set hfresh howns.2 key
    · simp only [Tour.act, hrun]
      exact hh.step hh₁ nofun nofun fun n => by rw [Dict.keys_insert]; rfl
    · simp only [Tour.act, hrun]
      exact hh.step hh₁ nofun nofun fun _ => rfl
  | delete key =>
    obtain ⟨h, entries, cursor, hh⟩ := ht
    obtain ⟨r, w', h', hrun, hh₁⟩ := hh.run_delete hfresh key
    simp only [Tour.act, hrun]
    exact hh.step hh₁ nofun nofun fun n => by rw [Dict.keys_erase]; rfl
  | clone c =>
    obtain ⟨h, entries, cursor, hh⟩ := ht
    obtain ⟨h', hh₁⟩ := hh.clone hfresh howns
    exact hh.step hh₁ nofun nofun fun _ => rfl
  | release c =>
    obtain ⟨h, entries, cursor, hh⟩ := ht
    have hperm := List.perm_cons_erase howns.1
    have hh' : Holds origin t.hash t.world (c :: t.handles.erase c) h entries cursor :=
      ⟨⟨hh.arrived.reach.perm hperm, hh.arrived.runs⟩, hperm.subset hh.mem, hh.hash⟩
    obtain ⟨h', hh₁⟩ := hh'.release hfresh howns.2
    exact hh.step hh₁ nofun nofun fun _ => rfl

/-! ## Tours -/

section
variable {t : Tour} {deeds as bs : List Deed}

theorem Tour.moves_append (t : Tour) (as bs : List Deed) :
    t.moves (as ++ bs) = t.moves as ++ (t.run as).moves bs := by
  induction as generalizing t with
  | nil => rfl
  | cons deed as ih => simp [Tour.moves, Tour.run, ih]

theorem Tour.length_moves (t : Tour) (deeds : List Deed) :
    (t.moves deeds).length = deeds.length := by
  induction deeds generalizing t with
  | nil => rfl
  | cons deed deeds ih => simp [Tour.moves, ih]

theorem Tour.ownsAll_append : t.OwnsAll (as ++ bs) ↔ t.OwnsAll as ∧ (t.run as).OwnsAll bs := by
  induction as generalizing t with
  | nil => simp [Tour.OwnsAll, Tour.run]
  | cons deed as ih => simp [Tour.OwnsAll, Tour.run, ih, and_assoc]

/-- Over a tour, the place goes where the moves take it, and what they yield is next there. -/
theorem Tour.OnHash.run (hfresh : origin.Fresh) (ht : t.OnHash origin) (howns : t.OwnsAll deeds) :
    (t.run deeds).OnHash origin ∧ (t.run deeds).hash = t.hash ∧
      (t.run deeds).place = t.place.run (t.moves deeds) ∧ t.place.Leads (t.moves deeds) := by
  induction deeds generalizing t with
  | nil => exact ⟨ht, rfl, rfl, trivial⟩
  | cons deed deeds ih =>
    have hstep := step_act hfresh ht howns.1
    obtain ⟨hon, hhash, hplace, hleads⟩ := ih hstep.onHash howns.2
    rw [hstep.place] at hplace hleads
    refine ⟨hon, hhash.trans hstep.hash, hplace, fun key hkey => ?_, hleads⟩
    cases hm : (t.act deed).1 with
    | yielded k v =>
      rw [hm] at hkey
      cases hkey
      exact (hstep.yields _ _ hm).1
    | _ => rw [hm] at hkey; cases hkey

theorem Tour.OnHash.goesOn (hfresh : origin.Fresh) (ht : t.OnHash origin) (howns : t.OwnsAll deeds)
    (hgoes : ∀ m ∈ t.moves deeds, m.GoesOn) (hwalk : t.cursor.walk ≠ .ended) :
    (t.run deeds).cursor.walk ≠ .ended := by
  induction deeds generalizing t with
  | nil => exact hwalk
  | cons deed deeds ih =>
    have hstep := step_act hfresh ht howns.1
    exact ih hstep.onHash howns.2 (fun m hm => hgoes m (.tail _ hm))
      (hstep.goesOn (hgoes _ (.head _)) hwalk)

theorem Tour.OnHash.next?_run_pass (hfresh : origin.Fresh) (ht : t.OnHash origin)
    (howns : t.OwnsAll deeds) {pass : List Move} (hmoves : t.moves deeds = pass ++ [.ended])
    (hgoes : ∀ m ∈ pass, m.GoesOn) (hwalk : t.cursor.walk ≠ .ended) :
    (t.place.run pass).next? = none := by
  obtain rfl | ⟨before, last, rfl⟩ := deeds.eq_nil_or_concat
  · cases pass <;> cases hmoves
  rw [List.concat_eq_append] at hmoves howns
  obtain ⟨hbefore, hlast⟩ := Tour.ownsAll_append.1 howns
  rw [Tour.moves_append] at hmoves
  obtain ⟨rfl, hended⟩ := List.append_inj' hmoves rfl
  obtain ⟨hon, -, hplace, -⟩ := ht.run hfresh hbefore
  rw [← hplace]
  exact (step_act hfresh hon hlast.1).ends (List.head_eq_of_cons_eq hended)
    (ht.goesOn hfresh hbefore hgoes hwalk)

theorem Tour.OnHash.nodup (hfresh : origin.Fresh) (ht : t.OnHash origin) : t.place.keys.Nodup := by
  obtain ⟨h, entries, cursor, hh⟩ := ht
  obtain ⟨-, -, hkeyed⟩ := hh.arrived.good hfresh hh.mem rfl
  rw [hh.place]
  exact hkeyed.hash hh.hash _ _ rfl

theorem Tour.OnHash.contains_iff (hfresh : origin.Fresh) (ht : t.OnHash origin) (key : String) :
    ((t.hash.contains key).run t.world).1 = .ok true ↔ key ∈ t.place.keys := by
  obtain ⟨h, entries, cursor, hh⟩ := ht
  obtain ⟨-, hq, -⟩ := hh.arrived.good hfresh hh.mem rfl
  have hanswer : (query (·.hashContains t.hash.cell.cell key)).run h =
      (.ok (entries.contains key), h) := by
    rw [run_query, hashContains, Heap.entries, hh.hash]
    rfl
  obtain ⟨hcross, -⟩ := hh.arrived.cross "hash exists" (.hashContains t.hash.cell key) rfl
    (fun a ha => by rw [List.mem_singleton.1 ha]) (List.cons_subset.2 ⟨hh.mem, List.nil_subset _⟩)
    hanswer hq
  have hnot : entries.get? key = none ↔ key ∉ entries.keys := Dict.get?_eq_none_iff
  rw [HashView.contains, hcross, hh.place]
  change Except.ok (entries.contains key) = Except.ok true ↔ key ∈ entries.keys
  cases hget : entries.get? key <;> simp_all [Dict.contains]

theorem Tour.OnHash.not_deleted (hfresh : origin.Fresh) (ht : t.OnHash origin)
    (howns : t.OwnsAll deeds) {key : String} (hthere : ∀ before, before <+: deeds →
      ((t.hash.contains key).run (t.run before).world).1 = .ok true) :
    key ∈ t.place.keys ∧ .deleted key ∉ t.moves deeds := by
  have hmem (before) (hbefore : before <+: deeds) :
      key ∈ (t.place.run (t.moves before)).keys := by
    obtain ⟨after, rfl⟩ := hbefore
    obtain ⟨hon, hhash, hplace, -⟩ := ht.run hfresh (Tour.ownsAll_append.1 howns).1
    rw [← hplace, ← hon.contains_iff hfresh, hhash]
    exact hthere before (List.prefix_append ..)
  refine ⟨hmem [] (List.nil_prefix ..), fun hdeleted => ?_⟩
  obtain ⟨as, bs, hmoves⟩ := List.append_of_mem hdeleted
  have htake : t.moves (deeds.take (as.length + 1)) = as ++ [.deleted key] := by
    have happend := t.moves_append (deeds.take (as.length + 1)) (deeds.drop (as.length + 1))
    rw [List.take_append_drop, hmoves, List.append_cons] at happend
    have hlength := congrArg List.length hmoves
    simp only [Tour.length_moves, List.length_append, List.length_cons] at hlength
    refine (List.append_inj_left happend ?_).symm
    simp [Tour.length_moves]
    omega
  have := hmem _ (List.take_prefix (as.length + 1) deeds)
  rw [htake, Place.run_append] at this
  exact (Place.nodup_run (ht.nodup hfresh) as).not_mem_erase this

theorem Tour.onHash_of_reached (hfresh : origin.Fresh) (hreach : Reached origin t.world t.handles)
    (hmem : t.hash.cell ∈ t.handles)
    (hstage : (t.world.session t.hash.cell.session).stage = .initialized)
    (hentries : (t.world.entries? t.hash).isSome) : t.OnHash origin := by
  obtain ⟨h, hr, -⟩ := (hreach.leaky hfresh).runsOn hstage
  rw [World.entries?, hr.engine] at hentries
  change ((h.hash t.hash.cell.cell).toOption).isSome = true at hentries
  cases hc : h.hash t.hash.cell.cell with
  | error e => rw [hc] at hentries; cases hentries
  | ok p => exact ⟨h, p.1, p.2, ⟨hreach, hr⟩, hmem, hc⟩

/-- A walk over a hash gives each key with the value that the hash has for it then, and a key twice
only if it was deleted and stored again. When it has ended, a key that was there all the time was
yielded once, or else it was missed once, when it was next and a key behind the walk was deleted.
Nothing is missed if no key is deleted that was yielded. -/
theorem hash_walk (hfresh : origin.Fresh) (hreach : Reached origin t.world t.handles)
    (hmem : t.hash.cell ∈ t.handles)
    (hstage : (t.world.session t.hash.cell.session).stage = .initialized)
    (hentries : (t.world.entries? t.hash).isSome) (hfirst : t.cursor.walk = .fresh)
    (howns : t.OwnsAll deeds) :
    (∀ before after, deeds = before ++ .next :: after → ∀ key v,
      ((t.run before).act .next).1 = .yielded key v →
        ((t.hash.get key).run (t.run before).world).1 = .ok v) ∧
    (∀ a b c key v v', t.moves deeds = a ++ .yielded key v :: (b ++ .yielded key v' :: c) →
      [.deleted key, .stored key].Sublist b) ∧
    ∀ pass, t.moves deeds = pass ++ [.ended] → (∀ m ∈ pass, m.GoesOn) →
      (∀ key, (∀ before, before <+: deeds →
          ((t.hash.contains key).run (t.run before).world).1 = .ok true) →
        (yields pass).count key + (t.place.missedIn pass).count key = 1) ∧
      ((∀ a key b, pass = a ++ .deleted key :: b → key ∉ yields a) →
        t.place.missedIn pass = []) := by
  have ht : t.OnHash origin := t.onHash_of_reached hfresh hreach hmem hstage hentries
  obtain ⟨-, -, -, hleads⟩ := ht.run hfresh howns
  have hnodup := ht.nodup hfresh
  refine ⟨?_, ?_, fun pass hmoves hgoes => ?_⟩
  · rintro before after rfl key v hyield
    obtain ⟨hbefore, hafter⟩ := Tour.ownsAll_append.1 howns
    obtain ⟨hon, hhash, -, -⟩ := ht.run hfresh hbefore
    have := ((step_next hfresh hon).yields key v hyield).2
    rwa [hhash] at this
  · intro a b c key v v' hmoves
    exact Place.Leads.restored hnodup (hmoves ▸ hleads)
  have hpassed : t.place.passed = 0 := by
    obtain ⟨h, entries, cursor, hh⟩ := ht
    rw [hh.place]
    exact if_pos hfirst
  have hpass : t.place.Leads pass := (Place.leads_append.1 (hmoves ▸ hleads)).1
  refine ⟨fun key hthere => ?_, fun hdeletes => ?_⟩
  · obtain ⟨hkey, hdeleted⟩ := ht.not_deleted hfresh howns hthere
    refine hpass.count_eq_one hnodup hpassed hkey (fun h => hdeleted ?_) ?_
    · exact hmoves ▸ List.mem_append_left _ h
    · -- the walk ends where no key is next
      exact ht.next?_run_pass hfresh howns hmoves hgoes (by rw [hfirst]; nofun)
  · exact Place.missedIn_eq_nil [] hgoes hpass (by simp [Place.behind, hpassed])
      (by simp [hpassed]) hdeletes

end

/-! ## A walk over three entries -/

instance : DecidablePred Move.GoesOn
  | .failed _ | .ended => isFalse id
  | .yielded .. | .stored _ | .rejected _ | .deleted _ | .shared => isTrue trivial

instance : DecidablePred (· = Move.ended)
  | .ended => isTrue rfl
  | .failed _ | .yielded .. | .stored _ | .rejected _ | .deleted _ | .shared => isFalse nofun

theorem eq_append_ended {moves : List Move} (hlast : moves.getLast?.any (· = .ended)) :
    moves = moves.dropLast ++ [.ended] := by
  obtain ⟨m, hm, hended⟩ := (Option.any_eq_true _ _).1 hlast
  rw [← of_decide_eq_true hended]
  exact (List.dropLast_append_getLast? m hm).symm

open Console

def counted : List Line := [{
  command := .session ⟨0⟩ (.newHash [("a", .int 1), ("b", .int 2), ("c", .int 3)])
  into := some "h" }]

def Console.tour (c : Console) (hash : HashView) : Tour := ⟨c.world, c.handles, { hash }⟩

theorem Reached.tour {c : Console} (hreach : Reached origin c.world c.handles) (hash : HashView) :
    Reached origin (c.tour hash).world (c.tour hash).handles := hreach

def countedTour : Tour := (run counted (.single {})).2.tour ⟨⟨⟨0⟩, ⟨5⟩⟩⟩

/-- A store, and the deletion of a key that has not come yet. -/
def gentle : List Deed := [.next, .set "d" .nothing, .delete "c", .next, .next, .next]

theorem hash_walk_gentle :
    (yields (countedTour.moves gentle).dropLast).count "b" +
      (countedTour.place.missedIn (countedTour.moves gentle).dropLast).count "b" = 1 := by
  have howns : countedTour.OwnsAll gentle :=
    ⟨trivial, ⟨List.nil_subperm, by decide +kernel⟩, trivial, trivial, trivial, trivial, trivial⟩
  have hthere : ∀ before ∈ gentle.inits,
      ((countedTour.hash.contains "b").run (countedTour.run before).world).1.toOption =
        some true := by decide +kernel
  have hwalk := hash_walk (t := countedTour) (fresh_single {}).world
    ((reached_run (fresh_single {}) counted).tour _) (by decide +kernel) (by decide +kernel)
    (by decide +kernel) (by decide +kernel) howns
  exact (hwalk.2.2 _ (eq_append_ended (by decide +kernel)) (by decide +kernel)).1 "b"
    fun before hbefore => eq_ok_of_toOption (hthere before ((List.mem_inits ..).2 hbefore))

/-- The deletion of the key that came last makes the walk miss the next one. -/
theorem missed_after_delete : ¬ ∀ deeds, countedTour.OwnsAll deeds →
    ∀ pass, countedTour.moves deeds = pass ++ [.ended] → (∀ m ∈ pass, m.GoesOn) →
      ∀ key, (∀ before, before <+: deeds →
        ((countedTour.hash.contains key).run (countedTour.run before).world).1 = .ok true) →
          (yields pass).count key = 1 := by
  intro honce
  let deeds : List Deed := [.next, .delete "a", .next, .next]
  have hthere : ∀ before ∈ deeds.inits,
      ((countedTour.hash.contains "b").run (countedTour.run before).world).1.toOption =
        some true := by decide +kernel
  have hyields : yields (countedTour.moves deeds).dropLast = ["a", "c"] := by decide +kernel
  have hone := honce deeds ⟨trivial, trivial, trivial, trivial, trivial⟩ _
    (eq_append_ended (by decide +kernel)) (by decide +kernel) "b"
    fun before hbefore => eq_ok_of_toOption (hthere before ((List.mem_inits ..).2 hbefore))
  rw [hyields] at hone
  cases hone

end Embedding
