import Embedding.Proofs.HashWalks
import Embedding.Proofs.Host.Filling
import Embedding.Proofs.Host.Refusals

/-!
# Where walks over containers end

A host asks a cursor for one item after another. In between it does other things, but leaves the
container and the place of its iteration alone. The main statement is that such a walk comes to an end,
and that a hash gives nothing after an error. An array that cannot be read reports that again and again.
-/

namespace Embedding

open Heap

variable {origin w w' : World} {hs : List Handle} {h : Heap} {s : SessionId}

def World.content? (w : World) (c : Handle) : Option Content :=
  ((w.session c.session).engine.interpreter.heap.bind (·.cell? c.cell)).map Cell.content

def Content.itemCount : Content → ℕ
  | .array items => items.size
  | .hash entries _ => entries.length
  | _ => 0

/-! ## What is left to a cursor -/

def ArrayCursor.left (c : ArrayCursor) : Option Content → ℕ
  | some (.array items) => items.size - c.position.getD items.size
  | _ => 0

def HashCursor.left (c : HashCursor) (held : Option Content) : ℕ :=
  if c.walk = .ended then 0 else
    match held with
    | some (.hash entries place) => entries.length - c.passed place + 1
    | _ => 1

/-- How many more answers but `none` a cursor can give as long as its container can be read and holds the
same. -/
def Cursor.left : Cursor → Option Content → ℕ
  | .array c => c.left
  | .hash c => c.left

theorem HashCursor.left_pos {c : HashCursor} (hwalk : c.walk ≠ .ended) (held : Option Content) :
    0 < c.left held := by
  unfold left
  rw [if_neg hwalk]
  split
  · exact Nat.succ_pos _
  · exact Nat.one_pos

theorem Cursor.left_none_le (c : Cursor) (held : Option Content) : c.left none ≤ c.left held := by
  cases c with
  | array c => exact Nat.zero_le _
  | hash c =>
    by_cases hwalk : c.walk = .ended
    · have hzero (held : Option Content) : c.left held = 0 := if_pos hwalk
      exact Nat.le_of_eq ((hzero none).trans (hzero held).symm)
    · have hone : c.left none = 1 := if_neg hwalk
      exact hone.trans_le (c.left_pos hwalk held)

theorem Arrived.content? {c : Handle} (ha : Arrived origin c.session w hs h) :
    w.content? c = (h.cell? c.cell).map Cell.content := by
  rw [World.content?, ha.runs.engine]
  rfl

/-! ### Arrays -/

theorem ArrayCursor.run_next (c : ArrayCursor) (w : World) : c.next.run w =
    match c.array.length.run w with
    | (.error e, w') => (.ok (some (.error e), { c with position := none }), w')
    | (.ok length, w') =>
      match c.position with
      | none => (.ok (none, c), w')
      | some index =>
        if index < length then
          let (item, w'') := (c.array.get index).run w'
          (.ok (some item, { c with position := some (index + 1) }), w'')
        else (.ok (none, c), w') := by
  unfold ArrayCursor.next
  rw [run_bind_ok (HostM.run_attempt _ w)]
  rcases c.array.length.run w with ⟨_ | length, w'⟩
  · rfl
  · obtain ⟨array, position⟩ := c
    cases position with
    | none => rfl
    | some index =>
      dsimp only
      by_cases hlt : index < length
      · rw [if_pos hlt, if_pos hlt, run_bind_ok (HostM.run_attempt _ w')]
        rfl
      · rw [if_neg hlt, if_neg hlt]
        rfl

theorem ArrayCursor.left_next {c c' : ArrayCursor} {item : Except HostError Value} {length : ℕ}
    (hfresh : origin.Fresh) (hreach : Reached origin w hs) (hmem : c.array.cell ∈ hs)
    (hlength : (c.array.length.run w).1 = .ok length)
    (hrun : c.next.run w = (.ok (some item, c'), w')) :
    c'.left (w'.content? c.array.cell) < c.left (w.content? c.array.cell) := by
  have hstage : (w.session c.array.cell.session).stage = .initialized :=
    crossWith_initialized (Prod.ext hlength rfl)
  obtain ⟨h, hr, -⟩ := (hreach.leaky hfresh).runsOn hstage
  have ha : Arrived origin c.array.cell.session w hs h := ⟨hreach, hr⟩
  have hread := ha.run_length hfresh hmem
  cases hitems : h.items c.array.cell.cell with
  | error fault =>
    rw [hitems] at hread
    rw [hread] at hlength
    cases hlength
  | ok items =>
    rw [hitems] at hread
    -- a step of the cursor leaves the items alone
    have hview : Ends c.next w _ := (show Arrived _ _ w ([] ++ _) h from ha).viewing hfresh hmem rfl
      (List.cons_subset.2 ⟨hmem, List.nil_subset _⟩) fun hdealing => hdealing.accounts_arrayNext c
    obtain ⟨h', ha', hf, hlive⟩ := hview.of_run hrun
    obtain ⟨x, hx, hcontent⟩ := items_eq_ok_iff.1 hitems
    obtain ⟨x', hx'⟩ := exists_cell hlive
    obtain ⟨y, hy, hsame, -⟩ := hf.cells _ x' (lt_of_cell? hx) hx'
    obtain rfl := Option.some.inj (hx.symm.trans hy)
    have hcontent' : x'.content = .array items := by
      rw [hcontent] at hsame
      rcases hsame with hsame | ⟨_, _, _, he, -⟩
      · exact hsame
      · cases he
    rw [ha.content?, ha'.content?, hx, hx', Option.map_some, Option.map_some, hcontent, hcontent']
    rw [c.run_next, hread] at hrun
    simp only at hrun
    split at hrun
    · cases hrun
    · next index hposition =>
      split at hrun
      · next hlt =>
        cases hrun
        simp only [left, hposition, Option.getD_some]
        omega
      · cases hrun

/-! ### Hashes -/

theorem HashCursor.step_initialized {c : HashCursor} {entry : Option (String × Value)}
    (hrun : c.step.run w = (.ok entry, w')) :
    (w.session c.hash.cell.session).stage = .initialized := by
  unfold HashCursor.step at hrun
  split at hrun
  all_goals
    obtain ⟨_, _, hcross, -⟩ := run_bind_eq_ok hrun
    exact crossWith_initialized hcross

theorem Arrived.run_step_error {c : HashCursor} {fault : Fault}
    (ha : Arrived origin c.hash.cell.session w hs h) (hfresh : origin.Fresh) (hmem : c.hash.cell ∈ hs)
    (hhash : h.hash c.hash.cell.cell = .error fault) : ∃ e, c.step.run w = (.error e, w) := by
  obtain ⟨-, hq, -⟩ := ha.good hfresh hmem rfl
  have hquery : (query (·.hash c.hash.cell.cell)).run h = (.error fault, h) := by rw [run_query, hhash]
  have hdeathless := deathless_hash h c.hash.cell.cell fault hhash
  unfold HashCursor.step
  split
  · exact ⟨_, run_bind_error (ha.cross_error "hash iterate" (.hashRewind c.hash.cell)
      (run_bind_error hquery) hq fun _ he => by cases he; exact hdeathless)⟩
  · exact ⟨_, run_bind_error (ha.cross_error "hash iterate" (.hashNext c.hash.cell)
      (run_bind_error hquery) hq fun _ he => by cases he; exact hdeathless)⟩

theorem HashCursor.holds_of_step {c : HashCursor} {entry : Option (String × Value)}
    (hfresh : origin.Fresh) (hreach : Reached origin w hs) (hmem : c.hash.cell ∈ hs)
    (hrun : c.step.run w = (.ok entry, w')) :
    ∃ h entries place, Holds origin c.hash w hs h entries place := by
  obtain ⟨h, hr, -⟩ := (hreach.leaky hfresh).runsOn (step_initialized hrun)
  have ha : Arrived origin c.hash.cell.session w hs h := ⟨hreach, hr⟩
  cases hhash : h.hash c.hash.cell.cell with
  | ok p => exact ⟨h, p.1, p.2, ha, hmem, hhash⟩
  | error fault =>
    obtain ⟨e, herror⟩ := ha.run_step_error hfresh hmem hhash
    rw [herror] at hrun
    cases hrun

theorem Holds.content? {hash : HashView} {entries : Dict CellId} {place : ℕ}
    (hh : Holds origin hash w hs h entries place) :
    w.content? hash.cell = some (.hash entries place) := by
  obtain ⟨x, hx, hcontent⟩ := hash_eq_ok_iff.1 hh.hash
  rw [hh.arrived.content?, hx, Option.map_some, hcontent]

theorem HashCursor.left_next {c c' : HashCursor} {item : Except HostError (String × Value)}
    (hfresh : origin.Fresh) (hreach : Reached origin w hs) (hmem : c.hash.cell ∈ hs)
    (hrun : c.next.run w = (.ok (some item, c'), w')) :
    c'.left (w'.content? c.hash.cell) < c.left (w.content? c.hash.cell) := by
  rw [c.run_next] at hrun
  split at hrun
  · cases hrun
  · next hwalk =>
    split at hrun
    · next entry w₁ hstep =>
      cases hrun
      obtain ⟨h, entries, place, hh⟩ := c.holds_of_step hfresh hreach hmem hstep
      obtain ⟨w₂, h', hstep'⟩ := hh.run_step hfresh (c := c) rfl
      cases hnext : entries[c.passed place]? with
      | none =>
        rw [hnext] at hstep'
        rw [hstep'.1] at hstep
        cases hstep
      | some found =>
        rw [hnext] at hstep'
        obtain ⟨hstep', hh'⟩ := hstep'
        obtain rfl : w₂ = w' := congrArg Prod.snd (hstep'.symm.trans hstep)
        have hlt : c.passed place < entries.length := (List.getElem?_eq_some_iff.1 hnext).1
        have hpassed (n : ℕ) : passed { c with walk := .started } n = n := if_neg nofun
        rw [hh.content?, hh'.content?, left, left, if_neg nofun, if_neg hwalk, hpassed]
        omega
    · cases hrun
    · cases hrun
      have hzero : left { c with walk := .ended } (w'.content? c.hash.cell) = 0 := if_pos rfl
      rw [hzero]
      exact c.left_pos hwalk _

/-! ## Walks -/

theorem ArrayCursor.unfailing_next (c : ArrayCursor) : Unfailing c.next := by
  refine (unfailing_attempt _).bind fun length => ?_
  cases length with
  | error e => exact unfailing_pure _
  | ok length =>
    dsimp only
    split
    · exact unfailing_pure _
    · split
      · exact (unfailing_attempt _).bind fun _ => unfailing_pure _
      · exact unfailing_pure _

theorem HashCursor.unfailing_next (c : HashCursor) : Unfailing c.next := by
  unfold HashCursor.next
  split
  · exact unfailing_pure _
  · refine (unfailing_attempt _).bind fun entry => ?_
    rcases entry with _ | _ | _ <;> exact unfailing_pure _

theorem Cursor.unfailing_next (c : Cursor) : Unfailing c.next := by
  cases c with
  | array c => exact c.unfailing_next.bind fun _ => unfailing_pure _
  | hash c => exact c.unfailing_next.bind fun _ => unfailing_pure _

/-- What asking the cursor in the world comes to. -/
def Cursor.advance (c : Cursor) (w : World) :
    Option (Except HostError (Key × Value)) × Cursor × World :=
  match c.next.run w with
  | (.ok (item, c'), w') => (item, c', w')
  | (.error e, w') => (some (.error e), c, w')

theorem Cursor.run_next (c : Cursor) (w : World) :
    c.next.run w = (.ok ((c.advance w).1, (c.advance w).2.1), (c.advance w).2.2) := by
  obtain ⟨⟨item, c'⟩, w', hrun⟩ := c.unfailing_next w
  rw [advance, hrun]

/-- The worlds in which a host asks a cursor for one item after another. -/
structure Sweep where
  first : Cursor
  worlds : ℕ → World

namespace Sweep

def cursor (t : Sweep) : ℕ → Cursor
  | 0 => t.first
  | n + 1 => ((t.cursor n).advance (t.worlds n)).2.1

def item (t : Sweep) (n : ℕ) : Option (Except HostError (Key × Value)) :=
  ((t.cursor n).advance (t.worlds n)).1

def after (t : Sweep) (n : ℕ) : World := ((t.cursor n).advance (t.worlds n)).2.2

/-- The host holds the container, and does not change it between the items, nor where its iteration is. -/
structure Undisturbed (origin : World) (t : Sweep) : Prop where
  held : ∀ n, ∃ hs, Reached origin (t.worlds n) hs ∧ t.first.cell ∈ hs
  same : ∀ n, (t.worlds (n + 1)).content? t.first.cell = none ∨
    (t.worlds (n + 1)).content? t.first.cell = (t.after n).content? t.first.cell

/-- An array is unreadable where the host asks for the item with the number `n`. -/
def Unreadable (t : Sweep) (n : ℕ) : Prop :=
  ∃ c e, t.cursor n = .array c ∧ (c.array.length.run (t.worlds n)).1 = .error e

theorem run_next (t : Sweep) (n : ℕ) :
    (t.cursor n).next.run (t.worlds n) = (.ok (t.item n, t.cursor (n + 1)), t.after n) :=
  (t.cursor n).run_next (t.worlds n)

theorem cell_cursor (t : Sweep) (n : ℕ) : (t.cursor n).cell = t.first.cell := by
  induction n with
  | zero => rfl
  | succ n ih => exact (Cursor.next_cell (t.run_next n)).trans ih

end Sweep

theorem Cursor.left_next {c c' : Cursor} {item : Except HostError (Key × Value)}
    (hfresh : origin.Fresh) (hreach : Reached origin w hs) (hmem : c.cell ∈ hs)
    (hreadable : ∀ a e, c = .array a → (a.array.length.run w).1 ≠ .error e)
    (hrun : c.next.run w = (.ok (some item, c'), w')) :
    c'.left (w'.content? c.cell) < c.left (w.content? c.cell) := by
  cases c with
  | array a =>
    obtain ⟨⟨found, a'⟩, w₁, hnext, hrun⟩ := run_bind_eq_ok hrun
    rcases found with _ | found <;> cases hrun
    cases hlength : (a.array.length.run w).1 with
    | error e => exact absurd hlength (hreadable a e rfl)
    | ok length => exact a.left_next hfresh hreach hmem hlength hnext
  | hash a =>
    obtain ⟨⟨found, a'⟩, w₁, hnext, hrun⟩ := run_bind_eq_ok hrun
    rcases found with _ | found <;> cases hrun
    exact a.left_next hfresh hreach hmem hnext

namespace Sweep

variable {t : Sweep}

theorem Undisturbed.left_succ (ht : t.Undisturbed origin) (hfresh : origin.Fresh) {n : ℕ}
    (hitem : t.item n ≠ none) (hreadable : ¬ t.Unreadable n) :
    (t.cursor (n + 1)).left ((t.worlds (n + 1)).content? t.first.cell) <
      (t.cursor n).left ((t.worlds n).content? t.first.cell) := by
  obtain ⟨item, hitem⟩ := Option.ne_none_iff_exists'.1 hitem
  obtain ⟨hs, hreach, hmem⟩ := ht.held n
  have hrun := t.run_next n
  rw [hitem] at hrun
  have hless := Cursor.left_next hfresh hreach (t.cell_cursor n ▸ hmem)
    (fun a e ha he => hreadable ⟨a, e, ha, he⟩) hrun
  rw [t.cell_cursor n] at hless
  refine Nat.lt_of_le_of_lt ?_ hless
  rcases ht.same n with hgone | hsame
  · rw [hgone]
    exact Cursor.left_none_le _ _
  · rw [hsame]

theorem Undisturbed.ends (ht : t.Undisturbed origin) (hfresh : origin.Fresh) : ∀ k n,
    (t.cursor n).left ((t.worlds n).content? t.first.cell) ≤ k →
      ∃ m ≤ n + k, t.item m = none ∨ t.Unreadable m := by
  intro k
  induction k with
  | zero =>
    intro n hleft
    by_contra hnot
    have hless := ht.left_succ hfresh (n := n) (fun h => hnot ⟨n, Nat.le_refl _, .inl h⟩)
      fun h => hnot ⟨n, Nat.le_refl _, .inr h⟩
    omega
  | succ k ih =>
    intro n hleft
    by_cases hend : t.item n = none ∨ t.Unreadable n
    · exact ⟨n, by omega, hend⟩
    · obtain ⟨hitem, hreadable⟩ := not_or.1 hend
      have hless := ht.left_succ hfresh hitem hreadable
      obtain ⟨m, hm, hend⟩ := ih (n + 1) (by omega)
      exact ⟨m, by omega, hend⟩

/-! ## After an error -/

theorem array_next {c : ArrayCursor} {n : ℕ} (hcursor : t.cursor n = .array c) : ∃ found c' w,
    c.next.run (t.worlds n) = (.ok (found, c'), w) ∧ t.cursor (n + 1) = .array c' ∧
      t.item n = found.map (·.map fun v => (.index (c.position.getD 0), v)) := by
  have hrun := t.run_next n
  rw [hcursor] at hrun
  obtain ⟨⟨found, c'⟩, w, hnext, hrun⟩ := run_bind_eq_ok hrun
  obtain ⟨hresult, -⟩ := Prod.mk.inj hrun
  obtain ⟨hitem, hcursor'⟩ := Prod.mk.inj (Except.ok.inj hresult)
  exact ⟨found, c', w, hnext, hcursor'.symm, hitem.symm⟩

theorem hash_next {c : HashCursor} {n : ℕ} (hcursor : t.cursor n = .hash c) : ∃ found c' w,
    c.next.run (t.worlds n) = (.ok (found, c'), w) ∧ t.cursor (n + 1) = .hash c' ∧
      t.item n = found.map (·.map fun (key, v) => (.name key, v)) := by
  have hrun := t.run_next n
  rw [hcursor] at hrun
  obtain ⟨⟨found, c'⟩, w, hnext, hrun⟩ := run_bind_eq_ok hrun
  obtain ⟨hresult, -⟩ := Prod.mk.inj hrun
  obtain ⟨hitem, hcursor'⟩ := Prod.mk.inj (Except.ok.inj hresult)
  exact ⟨found, c', w, hnext, hcursor'.symm, hitem.symm⟩

theorem array_cursor {a : ArrayView} (hfirst : t.first = .array { array := a }) (n : ℕ) :
    ∃ c, t.cursor n = .array c ∧ c.array = a := by
  induction n with
  | zero => exact ⟨_, hfirst, rfl⟩
  | succ n ih =>
    obtain ⟨c, hcursor, harray⟩ := ih
    obtain ⟨found, c', _, hnext, hcursor', -⟩ := array_next hcursor
    exact ⟨c', hcursor', (ArrayCursor.next_array hnext).trans harray⟩

theorem hash_cursor {a : HashView} (hfirst : t.first = .hash { hash := a }) (n : ℕ) :
    ∃ c, t.cursor n = .hash c := by
  induction n with
  | zero => exact ⟨_, hfirst⟩
  | succ n ih =>
    obtain ⟨c, hcursor⟩ := ih
    obtain ⟨found, c', _, -, hcursor', -⟩ := hash_next hcursor
    exact ⟨c', hcursor'⟩

/-- Once an array could not be read, each step only reports whether it can be read. -/
theorem array_stuck {a : ArrayView} (hfirst : t.first = .array { array := a }) {n : ℕ} {e : HostError}
    (herror : (a.length.run (t.worlds n)).1 = .error e) {m : ℕ} (hm : n ≤ m) :
    t.item m = (match (a.length.run (t.worlds m)).1 with
      | .ok _ => none
      | .error e => some (.error e)) ∧
    t.cursor (m + 1) = .array ⟨a, none⟩ := by
  induction m, hm using Nat.le_induction with
  | base =>
    obtain ⟨c, hcursor, rfl⟩ := array_cursor hfirst n
    obtain ⟨found, c', _, hnext, hcursor', hitem⟩ := array_next hcursor
    rw [c.run_next] at hnext
    cases hlength : c.array.length.run (t.worlds n) with
    | mk r w' =>
      rw [hlength] at hnext herror
      obtain rfl : r = .error e := herror
      cases hnext
      exact ⟨hitem, hcursor'⟩
  | succ m _ ih =>
    obtain ⟨-, hcursor⟩ := ih
    obtain ⟨found, c', _, hnext, hcursor', hitem⟩ := array_next hcursor
    rw [ArrayCursor.run_next] at hnext
    cases hlength : a.length.run (t.worlds (m + 1)) with
    | mk r w' =>
      rw [hlength] at hnext
      cases r <;> cases hnext <;> exact ⟨hitem, hcursor'⟩

theorem array_errors {a : ArrayView} (hfirst : t.first = .array { array := a })
    (hstage : ∀ n, ((t.worlds n).session a.cell.session).stage = .shutDown) (n : ℕ) :
    t.item n = some (.error (Embedding.ended "array length")) := by
  have hlength (n : ℕ) : (a.length.run (t.worlds n)).1 = .error (Embedding.ended "array length") := by
    rw [refused_arrayLength a _ (hstage n)]
    rfl
  rw [(array_stuck hfirst (hlength 0) (Nat.zero_le n)).1, hlength n]

/-- Once a walk over a hash has given anything but an entry, it gives nothing more. -/
theorem hash_ended {a : HashView} (hfirst : t.first = .hash { hash := a }) {n : ℕ}
    (hnone : ∀ entry, t.item n ≠ some (.ok entry)) {m : ℕ} (hm : n < m) : t.item m = none := by
  suffices hended : ∃ c, t.cursor m = .hash c ∧ c.walk = .ended by
    obtain ⟨c, hcursor, hwalk⟩ := hended
    obtain ⟨found, c', _, hnext, -, hitem⟩ := hash_next hcursor
    rw [c.run_next, if_pos hwalk] at hnext
    cases hnext
    exact hitem
  induction m, hm using Nat.le_induction with
  | base =>
    obtain ⟨c, hcursor⟩ := hash_cursor hfirst n
    obtain ⟨found, c', _, hnext, hcursor', hitem⟩ := hash_next hcursor
    refine ⟨c', hcursor', ?_⟩
    rw [c.run_next] at hnext
    split at hnext
    · cases hnext
      assumption
    · split at hnext
      · next entry _ _ =>
        cases hnext
        exact absurd hitem (hnone _)
      all_goals
        cases hnext
        rfl
  | succ m _ ih =>
    obtain ⟨c, hcursor, hwalk⟩ := ih
    obtain ⟨found, c', _, hnext, hcursor', -⟩ := hash_next hcursor
    rw [c.run_next, if_pos hwalk] at hnext
    cases hnext
    exact ⟨c, hcursor', hwalk⟩

end Sweep

def World.itemCount (w : World) (c : Handle) : ℕ := (w.content? c).elim 0 Content.itemCount

theorem ArrayCursor.left_first (a : ArrayView) (w : World) :
    left { array := a } (w.content? a.cell) ≤ w.itemCount a.cell := by
  unfold World.itemCount
  rcases w.content? a.cell with _ | _ | _ | _ | _ | _ <;>
    simp [left, Content.itemCount]

theorem HashCursor.left_first (a : HashView) (w : World) :
    left { hash := a } (w.content? a.cell) ≤ w.itemCount a.cell + 1 := by
  unfold World.itemCount
  rcases w.content? a.cell with _ | _ | _ | _ | _ | _ <;>
    simp [left, passed, Content.itemCount]

/-- A walk over a container that is left alone ends within one step more than the container has items, and
gives nothing more once a hash has given an error. Only an array that cannot be read keeps it from ending:
each later step reports that anew, and none gives an item. -/
theorem cursor_ends (hfresh : origin.Fresh) {t : Sweep} {c : Container}
    (hfirst : c.cursor.run w = (.ok t.first, w')) (ht : t.Undisturbed origin) :
    match c with
    | .hash view =>
      (∃ n ≤ (t.worlds 0).itemCount view.cell + 1, t.item n = none) ∧
        ∀ n, (∀ entry, t.item n ≠ some (.ok entry)) → ∀ m > n, t.item m = none
    | .array view =>
      (∃ n ≤ (t.worlds 0).itemCount view.cell,
        t.item n = none ∨ ∃ e, (view.length.run (t.worlds n)).1 = .error e) ∧
        ∀ n e, (view.length.run (t.worlds n)).1 = .error e → ∀ m ≥ n,
          t.item m = match (view.length.run (t.worlds m)).1 with
            | .ok _ => none
            | .error e => some (.error e) := by
  have hend := ht.ends hfresh _ 0 (Nat.le_refl _)
  rw [Nat.zero_add] at hend
  obtain ⟨n, hn, hend⟩ := hend
  cases c with
  | hash view =>
    have hfirst : t.first = .hash { hash := view } := by
      cases t
      cases hfirst
      rfl
    have hleft : (t.cursor 0).left ((t.worlds 0).content? t.first.cell) ≤
        (t.worlds 0).itemCount view.cell + 1 := by
      rw [Sweep.cursor, hfirst]
      exact HashCursor.left_first view (t.worlds 0)
    refine ⟨⟨n, hn.trans hleft, hend.resolve_right ?_⟩, fun n hnone m hm =>
      Sweep.hash_ended hfirst hnone hm⟩
    rintro ⟨c, e, hcursor, -⟩
    obtain ⟨c', hcursor'⟩ := Sweep.hash_cursor hfirst n
    cases hcursor.symm.trans hcursor'
  | array view =>
    have hfirst : t.first = .array { array := view } := by
      cases t
      cases hfirst
      rfl
    have hleft : (t.cursor 0).left ((t.worlds 0).content? t.first.cell) ≤
        (t.worlds 0).itemCount view.cell := by
      rw [Sweep.cursor, hfirst]
      exact ArrayCursor.left_first view (t.worlds 0)
    refine ⟨⟨n, hn.trans hleft, hend.imp_right ?_⟩, fun n e herror m hm =>
      (Sweep.array_stuck hfirst herror hm).1⟩
    rintro ⟨c, e, hcursor, herror⟩
    obtain ⟨c', hcursor', rfl⟩ := Sweep.array_cursor hfirst n
    cases hcursor.symm.trans hcursor'
    exact ⟨e, herror⟩

/-! ## A host that does nothing else -/

namespace Sweep

def repeated (c : Cursor) (w : World) : ℕ → Cursor × World
  | 0 => (c, w)
  | n + 1 => ((repeated c w n).1.advance (repeated c w n).2).2

/-- The walk of a host that asks at once for the next item. -/
def alone (c : Cursor) (w : World) : Sweep := ⟨c, fun n => (repeated c w n).2⟩

theorem cursor_alone (c : Cursor) (w : World) (n : ℕ) :
    (alone c w).cursor n = (repeated c w n).1 := by
  induction n with
  | zero => rfl
  | succ n ih =>
    rw [cursor, ih]
    rfl

theorem worlds_alone (c : Cursor) (w : World) (n : ℕ) :
    (alone c w).worlds (n + 1) = (alone c w).after n := by
  rw [after, cursor_alone]
  rfl

theorem undisturbed_alone {c : Cursor} (hreach : Reached origin w hs) (hmem : c.cell ∈ hs) :
    (alone c w).Undisturbed origin where
  held n := by
    induction n with
    | zero => exact ⟨hs, hreach, hmem⟩
    | succ n ih =>
      obtain ⟨hs', hreach', hmem'⟩ := ih
      rw [worlds_alone]
      have hsub : [((alone c w).cursor n).cell] ⊆ hs' := by
        rw [cell_cursor]
        exact List.cons_subset.2 ⟨hmem', List.nil_subset _⟩
      have hends := trade_reached.accounts_cursorNext ((alone c w).cursor n) _ hs' hsub hreach'
      exact ⟨_, hends.of_run ((alone c w).run_next n), List.mem_append_right _ hmem'⟩
  same n := .inr (by rw [worlds_alone])

end Sweep

theorem Reached.cursor {c : Container} {first : Cursor} (hreach : Reached origin w hs)
    (hmem : c.cell ∈ hs) (hrun : c.cursor.run w = (.ok first, w')) :
    Reached origin w' (first.cell :: hs) :=
  (trade_reached.accounts_containerCursor c w hs (List.cons_subset.2 ⟨hmem, List.nil_subset hs⟩)
    hreach).of_run hrun

open Console

theorem cursor_ends_counted : ∃ (t : Sweep) (w w' : World),
    (Container.hash ⟨⟨⟨0⟩, ⟨5⟩⟩⟩).cursor.run w = (.ok t.first, w') ∧
      t.Undisturbed (Console.single {}).world ∧ ∃ n ≤ 4, t.item n = none := by
  let c := (run counted (.single {})).2
  have hreach : Reached (Console.single {}).world c.world c.handles := reached_run (fresh_single {}) counted
  have hrun : (Container.hash ⟨⟨⟨0⟩, ⟨5⟩⟩⟩).cursor.run c.world =
      (.ok (.hash { hash := ⟨⟨⟨0⟩, ⟨5⟩⟩⟩ }), c.world.clone ⟨⟨0⟩, ⟨5⟩⟩) := rfl
  have hcursor := hreach.cursor (c := .hash ⟨⟨⟨0⟩, ⟨5⟩⟩⟩) (by decide +kernel) hrun
  have ht := Sweep.undisturbed_alone hcursor (List.mem_cons_self ..)
  obtain ⟨n, hn, hnone⟩ := (cursor_ends (fresh_single {}).world (t := .alone _ _) hrun ht).1
  have hcount : (c.world.clone ⟨⟨0⟩, ⟨5⟩⟩).itemCount ⟨⟨0⟩, ⟨5⟩⟩ = 3 := by decide +kernel
  refine ⟨_, c.world, _, hrun, ht, n, hn.trans ?_, hnone⟩
  exact Nat.succ_le_succ (Nat.le_of_eq hcount)

def abandoned : List Line := [
  { command := .session ⟨0⟩ (.newArray [.int 1]), into := some "a" },
  { command := .session ⟨0⟩ .shutDown }]

/-- In a session that was shut down, a walk over an array never ends. -/
theorem errors_without_end : ∃ (t : Sweep) (w w' : World),
    (Container.array ⟨⟨⟨0⟩, ⟨5⟩⟩⟩).cursor.run w = (.ok t.first, w') ∧
      t.Undisturbed (Console.single {}).world ∧
      ∀ n, t.item n = some (.error (ended "array length")) := by
  let c := (run abandoned (.single {})).2
  have hreach : Reached (Console.single {}).world c.world c.handles := reached_run (fresh_single {}) abandoned
  have hrun : (Container.array ⟨⟨⟨0⟩, ⟨5⟩⟩⟩).cursor.run c.world =
      (.ok (.array { array := ⟨⟨⟨0⟩, ⟨5⟩⟩⟩ }), c.world.clone ⟨⟨0⟩, ⟨5⟩⟩) := rfl
  have hcursor := hreach.cursor (c := .array ⟨⟨⟨0⟩, ⟨5⟩⟩⟩) (by decide +kernel) hrun
  have hgone : ((c.world.clone ⟨⟨0⟩, ⟨5⟩⟩).content? ⟨⟨0⟩, ⟨5⟩⟩).isNone := by decide +kernel
  have hstage : ((c.world.clone ⟨⟨0⟩, ⟨5⟩⟩).session ⟨0⟩).stage = .shutDown := by decide +kernel
  generalize c.world.clone ⟨⟨0⟩, ⟨5⟩⟩ = w' at hrun hcursor hgone hstage
  refine ⟨⟨_, fun _ => w'⟩, c.world, w', hrun, ⟨fun n => ⟨_, hcursor, List.mem_cons_self ..⟩,
    fun n => ?_⟩, Sweep.array_errors rfl fun _ => hstage⟩
  exact .inl (Option.isNone_iff_eq_none.1 hgone)

end Embedding
