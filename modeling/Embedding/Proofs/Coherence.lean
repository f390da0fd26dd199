import Embedding.Proofs.CursorEnds
import Embedding.Proofs.Host.Faces
import Embedding.Proofs.UnseenValues

/-!
# Containers show one thing

A host may step through a container, look a key up, or give the key of an item as a numeral. While
nobody changes the container, these come to the same: there are as many items as its length says, no key
comes twice, and a value that was met in a walk is found again under its key.
-/

namespace Embedding

open Heap

/-- An item of a container: its key, its cell, and what that is read as. -/
structure Shown where
  key : Key
  cell : CellId
  face : Option Face

def Heap.shown? (h : Heap) : Container → Option (List Shown)
  | .array view => (h.items view.cell.cell).toOption.map fun items =>
      items.toList.mapIdx fun i c => ⟨.index i, c, h.face? c⟩
  | .hash view => (h.hash view.cell.cell).toOption.map fun p =>
      p.1.map fun (key, c) => ⟨.name key, c, h.face? c⟩

def World.shown? (w : World) (c : Container) : Option (List Shown) :=
  if (w.session c.cell.session).stage = .initialized then
    (w.session c.cell.session).engine.interpreter.heap.bind (·.shown? c)
  else none

variable {origin w w' : World} {hs : List Handle} {h h' : Heap} {s : SessionId} {c : Container}
  {shown : List Shown} {p : Shown} {n : ℕ} {v : Value}

/-! ## What is shown -/

theorem Heap.shown?_array_iff {view : ArrayView} : h.shown? (.array view) = some shown ↔
    ∃ items, h.items view.cell.cell = .ok items ∧
      items.toList.mapIdx (fun i c => (⟨.index i, c, h.face? c⟩ : Shown)) = shown := by
  rw [Heap.shown?, Option.map_eq_some_iff]
  exact ⟨fun ⟨items, hitems, he⟩ => ⟨items, eq_ok_of_toOption hitems, he⟩,
    fun ⟨items, hitems, he⟩ => ⟨items, by rw [hitems]; rfl, he⟩⟩

theorem Heap.shown?_hash_iff {view : HashView} : h.shown? (.hash view) = some shown ↔
    ∃ entries place, h.hash view.cell.cell = .ok (entries, place) ∧
      entries.map (fun (key, c) => (⟨.name key, c, h.face? c⟩ : Shown)) = shown := by
  rw [Heap.shown?, Option.map_eq_some_iff]
  exact ⟨fun ⟨p, hp, he⟩ => ⟨p.1, p.2, eq_ok_of_toOption hp, he⟩,
    fun ⟨entries, place, hp, he⟩ => ⟨(entries, place), by rw [hp]; rfl, he⟩⟩

/-- The host has come to the world and holds the container there, which shows these items. -/
def HoldsItems (origin : World) (c : Container) (shown : List Shown) (w : World) : Prop :=
  ∃ hs, Reached origin w hs ∧ c.cell ∈ hs ∧ w.shown? c = some shown

theorem HoldsItems.arrived (hw : HoldsItems origin c shown w) (hfresh : origin.Fresh) :
    ∃ hs h, Arrived origin c.cell.session w hs h ∧ c.cell ∈ hs ∧ h.shown? c = some shown := by
  obtain ⟨hs, hreach, hmem, hshown⟩ := hw
  unfold World.shown? at hshown
  split at hshown
  · next hstage =>
    obtain ⟨h, hr, -⟩ := (hreach.leaky hfresh).runsOn hstage
    rw [hr.engine] at hshown
    exact ⟨hs, h, ⟨hreach, hr⟩, hmem, hshown⟩
  · cases hshown

section
variable (ha : Arrived origin c.cell.session w hs h) (hfresh : origin.Fresh) (hmem : c.cell ∈ hs)
  (hshown : h.shown? c = some shown)
include ha hfresh hmem hshown

theorem Arrived.nodup_shown : (shown.map Shown.key).Nodup := by
  cases c with
  | array view =>
    obtain ⟨items, -, rfl⟩ := shown?_array_iff.1 hshown
    have hkeys : (items.toList.mapIdx fun i c => (⟨.index i, c, h.face? c⟩ : Shown)).map Shown.key =
        (List.range items.size).map Key.index := by
      refine List.ext_getElem (by simp) fun i _ _ => ?_
      simp
    rw [hkeys]
    exact List.nodup_range.map fun _ _ he => Key.index.inj he
  | hash view =>
    obtain ⟨entries, place, hhash, rfl⟩ := shown?_hash_iff.1 hshown
    obtain ⟨-, -, hkeyed⟩ := ha.good hfresh hmem rfl
    have hnodup : entries.keys.Nodup := hkeyed.hash hhash _ _ rfl
    have hkeys : (entries.map fun (key, c) => (⟨.name key, c, h.face? c⟩ : Shown)).map Shown.key =
        entries.keys.map Key.name := by
      rw [Dict.keys, List.map_map, List.map_map]
      rfl
    rw [hkeys]
    exact hnodup.map fun _ _ he => Key.name.inj he

theorem Arrived.length_shown : c.length.run w = (.ok shown.length, w) := by
  cases c with
  | array view =>
    obtain ⟨items, hitems, rfl⟩ := shown?_array_iff.1 hshown
    have hlength := ha.run_length hfresh hmem
    rw [hitems] at hlength
    rw [List.length_mapIdx, Array.length_toList]
    exact hlength
  | hash view =>
    obtain ⟨entries, place, hhash, rfl⟩ := shown?_hash_iff.1 hshown
    have hh : Holds origin view w hs h entries place := ⟨ha, hmem, hhash⟩
    rw [List.length_map]
    exact hh.run_length hfresh

theorem Arrived.get_reads (hp : p ∈ shown) : ∃ face, p.face = some face ∧
    face.Reads ⟨c.cell.session, p.cell⟩ ((c.get p.key).run w) := by
  have hk := ha.keptOn hfresh hmem rfl
  obtain ⟨⟨lost, hsound⟩, hq, hkeyed⟩ := ha.good hfresh hmem rfl
  have hw : w.put c.cell.session h 0 = w := ha.runs.put_self
  have hfound {d : CellId} (hlive : h.isLive d) : ∃ face, h.face? d = some face := by
    obtain ⟨x, hx⟩ := exists_cell hlive
    exact ⟨_, face?_eq_some_iff.2 ⟨x, hx, rfl⟩⟩
  cases c with
  | array view =>
    obtain ⟨items, hitems, rfl⟩ := shown?_array_iff.1 hshown
    obtain ⟨i, hi, rfl⟩ := List.mem_mapIdx.1 hp
    have hlive := hsound.isLive_item hitems (List.getElem_mem hi)
    obtain ⟨face, hface⟩ := hfound hlive
    refine ⟨face, hface, ?_⟩
    have hreads := run_fetched_face hk (n := 0) "array get" (.arrayFetch view.cell i) hq hsound hlive
        hface <| by
      change (arrayFetch view.cell.cell i).run h = _
      rw [arrayFetch, run_bind_ok (by rw [run_query, hitems]), ← Array.getElem?_toList,
        List.getElem?_eq_getElem hi]
    rw [hw] at hreads
    exact hreads
  | hash view =>
    obtain ⟨entries, place, hhash, rfl⟩ := shown?_hash_iff.1 hshown
    obtain ⟨⟨key, d⟩, hentry, rfl⟩ := List.mem_map.1 hp
    have hlive := hsound.isLive_value hhash hentry
    obtain ⟨face, hface⟩ := hfound hlive
    refine ⟨face, hface, ?_⟩
    obtain ⟨i, hi⟩ := List.getElem?_of_mem hentry
    have hget : entries.get? key = some d := Dict.get?_of_getElem? (hkeyed.hash hhash _ _ rfl) hi
    have hreads := run_fetched_face hk (n := 0) "hash get" (.hashFetch view.cell key) hq hsound hlive
        hface <| by
      change (hashFetch view.cell.cell key).run h = _
      rw [hashFetch, run_bind_ok (by rw [run_query, Heap.entries, hhash]; rfl), hget]
    rw [hw] at hreads
    exact hreads

end

/-! ## Numerals -/

theorem Key.toIndex_toString {i : ℕ} (hi : i < 2 ^ 64) : (Key.name (toString i)).toIndex = .ok i := by
  rw [Key.toIndex, Digits.size?_toString hi]

theorem Container.get_numeral (c : Container) {i : ℕ} (hi : i < 2 ^ 64) :
    c.get (.name (toString i)) = c.get (.index i) := by
  cases c with
  | array view =>
    rw [Container.get, Key.toIndex_toString hi]
    rfl
  | hash view => rfl

theorem Container.set_numeral (c : Container) {i : ℕ} (hi : i < 2 ^ 64) (v : Value) :
    c.set (.name (toString i)) v = c.set (.index i) v := by
  cases c with
  | array view =>
    rw [Container.set, Key.toIndex_toString hi]
    rfl
  | hash view => rfl

/-! ## Steps -/

theorem map_entry_inj {r r' : Except HostError Value} {key : String} {w₁ w₂ : World}
    (he : (r.map fun v => some (key, v), w₁) = (r'.map fun v => some (key, v), w₂)) : (r, w₁) = (r', w₂) := by
  obtain ⟨hr, rfl⟩ := Prod.mk.inj he
  cases r <;> cases r' <;> cases hr <;> rfl

theorem Holds.step_reads {entries : Dict CellId} {place : ℕ} {key : String} {value : CellId} {face : Face}
    {cursor : HashCursor} (hh : Holds origin cursor.hash w hs h entries place) (hfresh : origin.Fresh)
    (hnext : entries[cursor.passed place]? = some (key, value)) (hface : h.face? value = some face) :
    ∃ w' h', cursor.step.run w = (((cursor.hash.get key).run w).1.map fun v => some (key, v), w') ∧
      face.Reads ⟨cursor.hash.cell.session, value⟩ (((cursor.hash.get key).run w).1, w') ∧
      Holds origin cursor.hash w' (hostStakes Value.handles ((cursor.hash.get key).run w).1 ++ hs) h' entries
        (cursor.passed place + 1) := by
  obtain ⟨⟨lost, hsound⟩, -, -⟩ := hh.arrived.good hfresh hh.mem rfl
  have hlive := hsound.isLive_value hh.hash (List.mem_of_getElem? hnext)
  obtain ⟨_, g, hretain, -, hg⟩ := gives_retain hlive _ hsound
  have hgrows := retain_grows h value
  rw [hretain] at hgrows
  obtain ⟨w₁, h₁, S, hstep, hh₁, ht, hw₁⟩ := hh.run_rewind hfresh
  obtain ⟨h₂, S', ht₂, hh₂, hadvance⟩ := hh.run_advance hfresh hh₁ ht hw₁ hnext hretain
  -- neither the place nor the count is part of a face
  have hf : h.Firm Turning g := (firm_refl (fun _ _ => .inl rfl) h).unchanged hgrows.firm
  have hface₂ : h₂.face? value = some face := by
    rw [ht₂.face?, hf.face? hsound hg hlive (hg.isLive (.head _)), hface]
  obtain ⟨⟨lost₂, hsound₂⟩, hq₂, -⟩ := hh₂.arrived.good hfresh hh₂.mem rfl
  rw [cellsOf_cons_self ⟨_, value⟩] at hsound₂
  have hreads := run_held_face (hh.arrived.keptOn hfresh hh.mem rfl) (n := 0) hq₂
    (hsound₂.perm List.perm_middle) hface₂
  obtain ⟨w', h', hrun⟩ := hh.run_step hfresh (c := cursor) rfl
  rw [hnext] at hrun
  obtain ⟨hrun, hh'⟩ := hrun
  refine ⟨w', h', hrun, ?_, hh'⟩
  have hentry (x : HostM Value) (w : World) :
      (do return some (key, ← x) : HostM (Option (String × Value))).run w =
        ((x.run w).1.map fun v => some (key, v), (x.run w).2) := by
    rw [run_bind]
    rcases x.run w with ⟨_ | _, _⟩ <;> rfl
  rw [hstep, hadvance, hentry] at hrun
  rw [← map_entry_inj hrun]
  exact hreads

/-- The cursor stands before the item of the container with the number `n`. -/
def Cursor.Before (n : ℕ) (held : Option Content) : Cursor → Container → Prop
  | .array cursor, .array view => cursor = ⟨view, some n⟩
  | .hash cursor, .hash view => cursor.hash = view ∧ cursor.walk ≠ .ended ∧
      ∃ entries place, held = some (.hash entries place) ∧ cursor.passed place = n
  | _, _ => False

theorem Cursor.Before.cell {cursor : Cursor} {held : Option Content} (hb : cursor.Before n held c) :
    cursor.cell = c.cell := by
  cases cursor <;> cases c
  · cases hb
    rfl
  · exact hb.elim
  · exact hb.elim
  · exact congrArg HashView.cell hb.1

section
variable (ha : Arrived origin c.cell.session w hs h) (hfresh : origin.Fresh) (hmem : c.cell ∈ hs)
  (hshown : h.shown? c = some shown) {cursor : Cursor}
include ha hfresh hmem hshown

theorem Arrived.next_item (hb : cursor.Before n (w.content? c.cell) c) (hp : shown[n]? = some p)
    (hv : ((c.get p.key).run w).1 = .ok v) : ∃ cursor' w',
      cursor.next.run w = (.ok (some (.ok (p.key, v)), cursor'), w') ∧
      cursor'.Before (n + 1) (w'.content? c.cell) c ∧
      ∃ face, p.face = some face ∧ face.Reads ⟨c.cell.session, p.cell⟩ (.ok v, w') := by
  have hread := ha.get_reads hfresh hmem hshown (List.mem_of_getElem? hp)
  have hlength := ha.length_shown hfresh hmem hshown
  cases c with
  | array view =>
    cases cursor with
    | hash cursor => exact hb.elim
    | array cursor =>
      cases hb
      obtain ⟨items, hitems, rfl⟩ := shown?_array_iff.1 hshown
      obtain ⟨hn, rfl⟩ := List.getElem?_eq_some_iff.1 hp
      have hrun := ArrayCursor.run_next ⟨view, some n⟩ w
      rw [show view.length.run w = _ from hlength] at hrun
      dsimp only at hrun
      rw [if_pos hn] at hrun
      rw [List.getElem_mapIdx] at hv hread ⊢
      cases hget : (view.get n).run w with
      | mk r w₁ =>
        have hget' : ((Container.array view).get (.index n)).run w = (r, w₁) := hget
        dsimp only at hv hread
        rw [hget'] at hv hread
        obtain rfl : r = .ok v := hv
        rw [hget] at hrun
        exact ⟨.array ⟨view, some (n + 1)⟩, w₁, (run_bind_ok hrun).trans rfl, rfl, hread⟩
  | hash view =>
    cases cursor with
    | array cursor => exact hb.elim
    | hash cursor =>
      obtain ⟨rfl, hwalk, entries, place, hheld, rfl⟩ := hb
      obtain ⟨entries', place', hhash, rfl⟩ := shown?_hash_iff.1 hshown
      have hh : Holds origin cursor.hash w hs h entries' place' := ⟨ha, hmem, hhash⟩
      cases hh.content?.symm.trans hheld
      rw [List.getElem?_map] at hp
      obtain ⟨⟨key, value⟩, hnext, rfl⟩ := Option.map_eq_some_iff.1 hp
      obtain ⟨face, hface, -⟩ := hread
      obtain ⟨w', h', hstep, hreads, hh'⟩ := hh.step_reads hfresh hnext hface
      have hv : ((cursor.hash.get key).run w).1 = .ok v := hv
      rw [hv] at hstep hreads hh'
      have hrun := cursor.run_next w
      rw [if_neg hwalk, hstep] at hrun
      refine ⟨_, w', (run_bind_ok hrun).trans rfl, ⟨rfl, nofun, entries, _, hh'.content?, if_neg nofun⟩,
        face, hface, hreads⟩

theorem Arrived.next_none (hb : cursor.Before shown.length (w.content? c.cell) c) : ∃ cursor' w',
    cursor.next.run w = (.ok (none, cursor'), w') ∧ ∀ held view, c = .array view →
      cursor'.Before shown.length held c := by
  have hlength := ha.length_shown hfresh hmem hshown
  cases c with
  | array view =>
    cases cursor with
    | hash cursor => exact hb.elim
    | array cursor =>
      cases hb
      have hrun := ArrayCursor.run_next ⟨view, some shown.length⟩ w
      rw [show view.length.run w = _ from hlength] at hrun
      dsimp only at hrun
      rw [if_neg (Nat.lt_irrefl _)] at hrun
      exact ⟨_, w, (run_bind_ok hrun).trans rfl, fun _ _ _ => rfl⟩
  | hash view =>
    cases cursor with
    | array cursor => exact hb.elim
    | hash cursor =>
      obtain ⟨rfl, hwalk, entries, place, hheld, hplace⟩ := hb
      obtain ⟨entries', place', hhash, rfl⟩ := shown?_hash_iff.1 hshown
      have hh : Holds origin cursor.hash w hs h entries' place' := ⟨ha, hmem, hhash⟩
      cases hh.content?.symm.trans hheld
      obtain ⟨w', h', hstep⟩ := hh.run_step hfresh (c := cursor) rfl
      rw [List.length_map] at hplace
      rw [hplace, List.getElem?_eq_none (Nat.le_refl _)] at hstep
      have hrun := cursor.run_next w
      rw [if_neg hwalk, hstep.1] at hrun
      exact ⟨_, w', (run_bind_ok hrun).trans rfl, nofun⟩

omit hfresh in
theorem Arrived.first_before {first : Cursor} {w₀ w₁ : World} (hrun : c.cursor.run w₀ = (.ok first, w₁)) :
    first.Before 0 (w.content? c.cell) c := by
  cases c with
  | array view =>
    cases hrun
    rfl
  | hash view =>
    cases hrun
    obtain ⟨entries, place, hhash, -⟩ := shown?_hash_iff.1 hshown
    have hh : Holds origin view w hs h entries place := ⟨ha, hmem, hhash⟩
    exact ⟨rfl, nofun, entries, place, hh.content?, if_pos rfl⟩

end

/-! ## Walks -/

/-- A walk over a container that the host leaves as it is, with values that are all seen. -/
structure Sweep.Over (t : Sweep) (origin : World) (c : Container) (shown : List Shown) : Prop where
  undisturbed : t.Undisturbed origin
  starts : ∃ w w', c.cursor.run w = (.ok t.first, w')
  stays : ∀ n, (t.worlds n).shown? c = some shown
  seen : ∀ p ∈ shown, ∃ v, ((c.get p.key).run (t.worlds 0)).1 = .ok v

namespace Sweep.Over

variable {t : Sweep} (ht : t.Over origin c shown) (hfresh : origin.Fresh)
include ht hfresh

omit hfresh in
theorem holdsItems (n : ℕ) : HoldsItems origin c shown (t.worlds n) := by
  obtain ⟨w₁, w₂, hrun⟩ := ht.starts
  obtain ⟨hs, hreach, hmem⟩ := ht.undisturbed.held n
  have hcell : t.first.cell = c.cell := by
    cases c <;> cases t <;> cases hrun <;> rfl
  exact ⟨hs, hreach, hcell ▸ hmem, ht.stays n⟩

theorem get_ok (n : ℕ) (hp : p ∈ shown) : ∃ v, ((c.get p.key).run (t.worlds n)).1 = .ok v := by
  obtain ⟨hs₀, h₀, ha₀, hmem₀, hshown₀⟩ := (ht.holdsItems 0).arrived hfresh
  obtain ⟨hs, h, ha, hmem, hshown⟩ := (ht.holdsItems n).arrived hfresh
  obtain ⟨face, hface, hreads₀⟩ := ha₀.get_reads hfresh hmem₀ hshown₀ hp
  obtain ⟨face', hface', hreads⟩ := ha.get_reads hfresh hmem hshown hp
  cases hface.symm.trans hface'
  obtain ⟨v, hv⟩ := ht.seen p hp
  obtain ⟨u, hu, -⟩ := hreads₀.agrees hreads hv
  exact ⟨u, hu⟩

theorem before (hn : n ≤ shown.length) :
    (t.cursor n).Before n ((t.worlds n).content? c.cell) c := by
  induction n with
  | zero =>
    obtain ⟨hs, h, ha, hmem, hshown⟩ := (ht.holdsItems 0).arrived hfresh
    obtain ⟨w₁, w₂, hrun⟩ := ht.starts
    exact ha.first_before hmem hshown hrun
  | succ n ih =>
    obtain ⟨hs, h, ha, hmem, hshown⟩ := (ht.holdsItems n).arrived hfresh
    have hp : shown[n]? = some shown[n] := List.getElem?_eq_getElem hn
    obtain ⟨v, hv⟩ := ht.get_ok hfresh n (List.mem_of_getElem? hp)
    have hb := ih (Nat.le_of_succ_le hn)
    obtain ⟨cursor', w', hrun, hb', -⟩ := ha.next_item hfresh hmem hshown hb hp hv
    have hstep := (t.run_next n).symm.trans hrun
    obtain ⟨hresult, rfl⟩ := Prod.mk.inj hstep
    obtain ⟨-, rfl⟩ := Prod.mk.inj (Except.ok.inj hresult)
    have hcell : t.first.cell = c.cell := (t.cell_cursor n).symm.trans hb.cell
    obtain ⟨hs', h', ha', hmem', hshown'⟩ := (ht.holdsItems (n + 1)).arrived hfresh
    rcases ht.undisturbed.same n with hgone | hsame
    · rw [hcell, ha'.content?] at hgone
      exact absurd (Option.map_eq_none_iff.1 hgone) fun hnone => by
        cases c with
        | array view =>
          obtain ⟨items, hitems, -⟩ := shown?_array_iff.1 hshown'
          obtain ⟨x, hx, -⟩ := items_eq_ok_iff.1 hitems
          cases hnone.symm.trans hx
        | hash view =>
          obtain ⟨entries, place, hhash, -⟩ := shown?_hash_iff.1 hshown'
          obtain ⟨x, hx, -⟩ := hash_eq_ok_iff.1 hhash
          cases hnone.symm.trans hx
    · rw [← hcell, hsame, hcell]
      exact hb'

/-- The walk gives each item with the value that a look-up gives, and whenever the host looks the key up
again it gets that value. -/
theorem item (hp : shown[n]? = some p) : ∃ v, t.item n = some (.ok (p.key, v)) ∧
    ((c.get p.key).run (t.worlds n)).1 = .ok v ∧
    ∀ w, HoldsItems origin c shown w → ∃ u w', (c.get p.key).run w = (.ok u, w') ∧ v.Agrees (t.after n) u w' := by
  obtain ⟨hs, h, ha, hmem, hshown⟩ := (ht.holdsItems n).arrived hfresh
  obtain ⟨v, hv⟩ := ht.get_ok hfresh n (List.mem_of_getElem? hp)
  have hn : n < shown.length := (List.getElem?_eq_some_iff.1 hp).1
  obtain ⟨cursor', w', hrun, -, face, hface, hreads⟩ :=
    ha.next_item hfresh hmem hshown (ht.before hfresh (Nat.le_of_lt hn)) hp hv
  obtain ⟨hresult, rfl⟩ := Prod.mk.inj ((t.run_next n).symm.trans hrun)
  obtain ⟨hitem, -⟩ := Prod.mk.inj (Except.ok.inj hresult)
  refine ⟨v, hitem, hv, fun w₂ hw₂ => ?_⟩
  obtain ⟨hs₂, h₂, ha₂, hmem₂, hshown₂⟩ := hw₂.arrived hfresh
  obtain ⟨face₂, hface₂, hreads₂⟩ := ha₂.get_reads hfresh hmem₂ hshown₂ (List.mem_of_getElem? hp)
  cases hface.symm.trans hface₂
  obtain ⟨u, hu, hagrees⟩ := hreads.agrees hreads₂ rfl
  exact ⟨u, _, Prod.ext hu rfl, hagrees⟩

theorem ends (hn : shown.length ≤ n) : t.item n = none := by
  have hlast : t.item shown.length = none := by
    obtain ⟨hs, h, ha, hmem, hshown⟩ := (ht.holdsItems shown.length).arrived hfresh
    obtain ⟨cursor', w', hrun, -⟩ := ha.next_none hfresh hmem hshown (ht.before hfresh (Nat.le_refl _))
    obtain ⟨hresult, -⟩ := Prod.mk.inj ((t.run_next _).symm.trans hrun)
    exact (Prod.mk.inj (Except.ok.inj hresult)).1
  obtain ⟨w₁, w₂, hrun⟩ := ht.starts
  cases c with
  | hash view =>
    have hfirst : t.first = .hash { hash := view } := by
      cases t
      cases hrun
      rfl
    rcases Nat.eq_or_lt_of_le hn with rfl | hlt
    · exact hlast
    · exact hash_ended hfirst (fun entry he => by rw [hlast] at he; cases he) hlt
  | array view =>
    have hstep (m : ℕ) (hb : (t.cursor m).Before shown.length ((t.worlds m).content? view.cell)
        (.array view)) :
        t.item m = none ∧ ∀ held, (t.cursor (m + 1)).Before shown.length held (.array view) := by
      obtain ⟨hs, h, ha, hmem, hshown⟩ := (ht.holdsItems m).arrived hfresh
      obtain ⟨cursor', w', hrun, hb'⟩ := ha.next_none hfresh hmem hshown hb
      obtain ⟨hresult, -⟩ := Prod.mk.inj ((t.run_next m).symm.trans hrun)
      obtain ⟨hitem, rfl⟩ := Prod.mk.inj (Except.ok.inj hresult)
      exact ⟨hitem, fun held => hb' held view rfl⟩
    suffices hb : (t.cursor n).Before shown.length ((t.worlds n).content? view.cell) (.array view) from
      (hstep n hb).1
    induction n, hn using Nat.le_induction with
    | base => exact ht.before hfresh (Nat.le_refl _)
    | succ m _ ih => exact (hstep m ih).2 _

end Sweep.Over

/-- A walk over a container gives as many items as its length says, each with the value that the container
gives for its key, and no key comes twice. The index of an item and its numeral are one key, whether a value
is read or stored. -/
theorem readings_cohere (hfresh : origin.Fresh) :
    (∀ (c : Container) i, i < 2 ^ 64 → c.get (.name (toString i)) = c.get (.index i) ∧
      ∀ v, c.set (.name (toString i)) v = c.set (.index i) v) ∧
    ∀ (t : Sweep) c shown, t.Over origin c shown →
      (shown.map Shown.key).Nodup ∧
      (∀ n, (c.length.run (t.worlds n)).1 = .ok shown.length) ∧
      (∀ n ≥ shown.length, t.item n = none) ∧
      ∀ n p, shown[n]? = some p → ∃ v, t.item n = some (.ok (p.key, v)) ∧
        ((c.get p.key).run (t.worlds n)).1 = .ok v ∧
        ∀ w, HoldsItems origin c shown w →
          ∃ u w', (c.get p.key).run w = (.ok u, w') ∧ v.Agrees (t.after n) u w' := by
  refine ⟨fun c i hi => ⟨c.get_numeral hi, c.set_numeral hi⟩, fun t c shown ht => ⟨?_, fun n => ?_,
    fun n hn => ht.ends hfresh hn, fun n p hp => ht.item hfresh hp⟩⟩
  · obtain ⟨hs, h, ha, hmem, hshown⟩ := (ht.holdsItems 0).arrived hfresh
    exact ha.nodup_shown hfresh hmem hshown
  · obtain ⟨hs, h, ha, hmem, hshown⟩ := (ht.holdsItems n).arrived hfresh
    rw [ha.length_shown hfresh hmem hshown]

/-! ## A host that does nothing else -/

theorem Heap.Firm.shown? {σ τ : List CellId} (hf : h.Firm Turning h') (hs : h.Sound σ) (hs' : h'.Sound τ)
    (hlive : h'.isLive c.cell.cell) (hshown : h.shown? c = some shown) : h'.shown? c = some shown := by
  cases c with
  | array view =>
    obtain ⟨items, hitems, rfl⟩ := shown?_array_iff.1 hshown
    have hitems' := hf.items_ok hitems hlive fun _ _ => id
    refine shown?_array_iff.2 ⟨items, hitems', List.ext_getElem? fun i => ?_⟩
    rw [List.getElem?_mapIdx, List.getElem?_mapIdx]
    cases hi : items.toList[i]? with
    | none => rfl
    | some d =>
      have hmem := List.mem_of_getElem? hi
      exact congrArg (fun face => some (Shown.mk _ _ face))
        (hf.face? hs hs' (hs.isLive_item hitems hmem) (hs'.isLive_item hitems' hmem))
  | hash view =>
    obtain ⟨entries, place, hhash, rfl⟩ := shown?_hash_iff.1 hshown
    obtain ⟨place', hhash'⟩ := hf.hash_turning hhash hlive
    refine shown?_hash_iff.2 ⟨entries, place', hhash', List.map_congr_left fun p hp => ?_⟩
    exact congrArg (Shown.mk _ _) (hf.face? hs hs' (hs.isLive_value hhash hp) (hs'.isLive_value hhash' hp))

/-- What looks at a container changes nothing that is shown. -/
theorem HoldsItems.viewing {α : Type} {x : HostM α} {given : α → List Handle} {r : Except HostError α}
    (hw : HoldsItems origin c shown w) (hfresh : origin.Fresh)
    (hx : ∀ {may : Permission} {I}, Dealing may I → ∀ [Looks may], Accounts I [c.cell] x [] given)
    (hrun : x.run w = (r, w')) : HoldsItems origin c shown w' := by
  obtain ⟨hs, h, ha, hmem, hshown⟩ := hw.arrived hfresh
  have hview : Ends x w _ := (show Arrived _ _ w ([] ++ _) h from ha).viewing hfresh hmem rfl
    (List.cons_subset.2 ⟨hmem, List.nil_subset _⟩) hx
  obtain ⟨h', ha', hf, hlive⟩ := hview.of_run hrun
  obtain ⟨lost, hsound⟩ := ha.leaky hfresh
  obtain ⟨lost', hsound'⟩ := ha'.leaky hfresh
  refine ⟨_, ha'.reach, List.mem_append_right _ hmem, ?_⟩
  rw [World.shown?, if_pos ha'.runs.stage, ha'.runs.engine]
  exact hf.shown? hsound hsound' hlive hshown

theorem HoldsItems.alone {k : Cursor} (hw : HoldsItems origin c shown w) (hfresh : origin.Fresh)
    (hcell : k.cell = c.cell) (n : ℕ) : HoldsItems origin c shown ((Sweep.alone k w).worlds n) := by
  induction n with
  | zero => exact hw
  | succ n ih =>
    have hcursor := (Sweep.cell_cursor (.alone k w) n).trans hcell
    rw [Sweep.worlds_alone]
    exact ih.viewing hfresh (fun hdealing => hcursor ▸ hdealing.accounts_cursorNext _)
      ((Sweep.alone k w).run_next n)

theorem HoldsItems.cursor {first : Cursor} (hw : HoldsItems origin c shown w) (hfresh : origin.Fresh)
    (hrun : c.cursor.run w = (.ok first, w')) : HoldsItems origin c shown w' :=
  hw.viewing hfresh (fun hdealing => hdealing.accounts_containerCursor c) hrun

/-- A host walks over a container and does nothing else. -/
theorem HoldsItems.over {first : Cursor} (hw : HoldsItems origin c shown w) (hfresh : origin.Fresh)
    (hrun : c.cursor.run w = (.ok first, w'))
    (hseen : ∀ p ∈ shown, ∃ v, ((c.get p.key).run w').1 = .ok v) :
    (Sweep.alone first w').Over origin c shown := by
  have hcell : first.cell = c.cell := by cases c <;> cases hrun <;> rfl
  obtain ⟨hs, hreach, hmem, -⟩ := hw.cursor hfresh hrun
  refine ⟨Sweep.undisturbed_alone hreach (hcell ▸ hmem), ⟨w, w', hrun⟩, fun n => ?_, hseen⟩
  obtain ⟨-, -, -, hshown⟩ := (hw.cursor hfresh hrun).alone hfresh hcell n
  exact hshown

open Console

def countedHash : HashView := ⟨⟨⟨0⟩, ⟨5⟩⟩⟩

def countedWorld : World := (run counted (.single {})).2.world

theorem holdsItems_counted : ∃ shown,
    HoldsItems (Console.single {}).world (.hash countedHash) shown countedWorld ∧ shown.length = 3 := by
  have hcount : (countedWorld.shown? (.hash countedHash)).map List.length = some 3 := by decide +kernel
  obtain ⟨shown, hshown, hlength⟩ := Option.map_eq_some_iff.1 hcount
  exact ⟨shown, ⟨_, reached_run (fresh_single {}) counted, by decide +kernel, hshown⟩, hlength⟩

theorem counted_seen {shown : List Shown}
    (hw : HoldsItems (Console.single {}).world (.hash countedHash) shown (countedWorld.clone countedHash.cell)) :
    ∀ p ∈ shown, ∃ v, (((Container.hash countedHash).get p.key).run
      (countedWorld.clone countedHash.cell)).1 = .ok v := by
  have hseen : ∀ p ∈ ((countedWorld.clone countedHash.cell).shown? (.hash countedHash)).getD [],
      (((Container.hash countedHash).get p.key).run
        (countedWorld.clone countedHash.cell)).1.toOption.isSome := by decide +kernel
  obtain ⟨-, -, -, hshown⟩ := hw
  rw [hshown] at hseen
  intro p hp
  obtain ⟨v, hv⟩ := Option.isSome_iff_exists.1 (hseen p hp)
  exact ⟨v, eq_ok_of_toOption hv⟩

/-- A host walks over a hash of three entries. -/
theorem readings_cohere_counted : ∃ (t : Sweep) (shown : List Shown),
    t.Over (Console.single {}).world (.hash countedHash) shown ∧ shown.length = 3 ∧
      (shown.map Shown.key).Nodup ∧ t.item 3 = none := by
  obtain ⟨shown, hw, hlength⟩ := holdsItems_counted
  have hfresh := (fresh_single {}).world
  have ht := hw.over hfresh rfl (counted_seen (hw.cursor hfresh rfl))
  obtain ⟨hnodup, -, hends, -⟩ := (readings_cohere hfresh).2 _ _ _ ht
  exact ⟨_, shown, ht, hlength, hnodup, hends 3 (Nat.le_of_eq hlength)⟩

/-- A walk over a hash, in which the host makes two steps of a second walk after the first item. -/
def crossed (hash : HashView) (w : World) : Sweep where
  first := .hash { hash }
  worlds
    | 0 => w
    | n + 1 =>
      let (_, cursor, w₁) := (Cursor.hash { hash }).advance w
      (Sweep.alone cursor ((Sweep.alone (.hash { hash }) (w₁.clone hash.cell)).worlds 2)).worlds n

theorem HoldsItems.crossed {hash : HashView} (hw : HoldsItems origin (.hash hash) shown w) (hfresh : origin.Fresh)
    (n : ℕ) : HoldsItems origin (.hash hash) shown ((crossed hash w).worlds n) := by
  cases n with
  | zero => exact hw
  | succ n =>
    have hfirst := hw.alone (k := .hash { hash }) hfresh rfl 1
    have hsecond := (hfirst.cursor hfresh rfl).alone (k := .hash { hash }) hfresh rfl 2
    exact hsecond.alone hfresh (Sweep.cell_cursor (.alone (.hash { hash }) w) 1) n

/-- The place of a walk is the hash's: a second walk makes the first one miss an item, though nothing that is
shown has changed. -/
theorem missed_between_walks : ¬ ∀ (t : Sweep) c shown, (∃ w w', c.cursor.run w = (.ok t.first, w')) →
    (∀ n, HoldsItems (Console.single {}).world c shown (t.worlds n)) →
    (∀ p ∈ shown, ∃ v, ((c.get p.key).run (t.worlds 0)).1 = .ok v) →
      ∀ n < shown.length, ∃ entry, t.item n = some (.ok entry) := by
  intro hall
  obtain ⟨shown, hw, hlength⟩ := holdsItems_counted
  have hfresh := (fresh_single {}).world
  have hw' : HoldsItems _ _ _ (countedWorld.clone countedHash.cell) := hw.cursor hfresh rfl
  obtain ⟨entry, hentry⟩ := hall (crossed countedHash (countedWorld.clone countedHash.cell))
    (.hash countedHash) shown ⟨countedWorld, _, rfl⟩ (hw'.crossed hfresh) (counted_seen hw') 2
    (Nat.lt_of_lt_of_eq (by decide) hlength.symm)
  have hmissed : ((crossed countedHash (countedWorld.clone countedHash.cell)).item 2).isNone := by
    decide +kernel
  rw [hentry] at hmissed
  cases hmissed

end Embedding
