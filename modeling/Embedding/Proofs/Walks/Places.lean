import Embedding.Host.Container
import Mathlib.Data.List.Nodup

/-!
# Places of a walk

A walk over a hash is at a place: so many keys lie behind it. Stores append and deletions close gaps
while the number stays, so that a deletion behind the walk moves the next key behind it as well.
-/

namespace Embedding

/-- What came of one thing that a host did in a walk over a hash. -/
inductive Move
  | yielded (key : String) (v : Value)
  | failed (e : HostError)
  | ended
  | stored (key : String)
  | rejected (e : HostError)
  | deleted (key : String)
  /-- Handles were cloned or released. -/
  | shared

def Move.key? : Move → Option String
  | .yielded key _ => some key
  | _ => none

/-- The walk goes on after the move. -/
def Move.GoesOn : Move → Prop
  | .failed _ | .ended => False
  | _ => True

def yields (moves : List Move) : List String := moves.filterMap Move.key?

/-- The keys of a hash in their order, and the number of those behind the walk. -/
structure Place where
  keys : List String
  passed : Nat

namespace Place

def behind (p : Place) : List String := p.keys.take p.passed

def ahead (p : Place) : List String := p.keys.drop p.passed

def next? (p : Place) : Option String := p.keys[p.passed]?

def after (p : Place) : Move → Place
  | .yielded .. | .failed _ => { p with passed := p.passed + 1 }
  | .stored key => { p with keys := if key ∈ p.keys then p.keys else p.keys ++ [key] }
  | .deleted key => { p with keys := p.keys.erase key }
  | .ended | .rejected _ | .shared => p

/-- The keys that fall behind the walk in the move without being yielded. -/
def missed (p : Place) : Move → List String
  | .deleted key => if key ∈ p.behind then p.next?.toList else []
  | .failed _ => p.next?.toList
  | _ => []

def run (p : Place) (moves : List Move) : Place := moves.foldl after p

def missedIn : Place → List Move → List String
  | _, [] => []
  | p, m :: moves => p.missed m ++ missedIn (p.after m) moves

/-- What the moves yield is the next key each time. -/
def Leads : Place → List Move → Prop
  | _, [] => True
  | p, m :: moves => (∀ key, m.key? = some key → p.next? = some key) ∧ Leads (p.after m) moves

variable {p : Place} {m : Move} {moves : List Move} {key : String}

@[simp] theorem run_nil (p : Place) : p.run [] = p := rfl

@[simp] theorem run_cons (p : Place) (m : Move) (moves : List Move) :
    p.run (m :: moves) = (p.after m).run moves := rfl

@[simp] theorem yields_cons (m : Move) (moves : List Move) :
    yields (m :: moves) = m.key?.toList ++ yields moves := by
  cases h : m.key? <;> simp [yields, h]

theorem run_append (p : Place) (as bs : List Move) : p.run (as ++ bs) = (p.run as).run bs := by
  simp [run]

theorem nodup_after (hp : p.keys.Nodup) (m : Move) : (p.after m).keys.Nodup := by
  cases m with
  | stored key =>
    simp only [after]
    split
    · exact hp
    · next h => exact List.nodup_append.2 ⟨hp, by simp, by rintro a ha b hb rfl; exact h (List.mem_singleton.1 hb ▸ ha)⟩
  | deleted key => exact hp.erase key
  | _ => exact hp

theorem nodup_run (hp : p.keys.Nodup) (moves : List Move) : (p.run moves).keys.Nodup := by
  induction moves generalizing p with
  | nil => exact hp
  | cons m moves ih => exact ih (nodup_after hp m)

theorem mem_after (hkey : key ∈ p.keys) (hm : m ≠ .deleted key) : key ∈ (p.after m).keys := by
  cases m with
  | stored k =>
    simp only [after]
    split
    · exact hkey
    · exact List.mem_append_left _ hkey
  | deleted k =>
    have hne : key ≠ k := fun e => hm (e ▸ rfl)
    exact (List.mem_erase_of_ne hne).2 hkey
  | _ => exact hkey

/-! ## Keys ahead -/

theorem next?_eq_head? (p : Place) : p.next? = p.ahead.head? := by
  simp [next?, ahead, List.head?_drop]

theorem behind_append_ahead (p : Place) : p.behind ++ p.ahead = p.keys := List.take_append_drop ..

theorem ahead_stored (p : Place) (key : String) :
    ∃ added, (p.after (.stored key)).ahead = p.ahead ++ added ∧ ∀ k ∈ added, k = key ∧ k ∉ p.keys := by
  simp only [after, ahead]
  split
  · exact ⟨[], by simp, by simp⟩
  · next h =>
    refine ⟨[key].drop (p.passed - p.keys.length), List.drop_append, fun k hk => ?_⟩
    have := List.mem_singleton.1 (List.mem_of_mem_drop hk)
    exact ⟨this, this ▸ h⟩

/-- A deletion behind the walk closes a gap there, so that the next key falls behind. -/
theorem ahead_deleted_behind (hkey : key ∈ p.behind) :
    (p.after (.deleted key)).ahead = p.ahead.tail := by
  have hpos : 0 < p.passed := by
    refine Nat.pos_of_ne_zero fun h => ?_
    simp [behind, h] at hkey
  have hlength : (p.behind.erase key).length = p.behind.length - 1 := List.length_erase_of_mem hkey
  have htake : p.behind.length = min p.passed p.keys.length := List.length_take
  have hdrop : p.ahead.length = p.keys.length - p.passed := List.length_drop
  change (p.keys.erase key).drop p.passed = _
  rw [← behind_append_ahead, List.erase_append_left _ hkey, List.drop_append,
    List.drop_eq_nil_of_le (by omega), List.nil_append]
  by_cases hnil : p.ahead = []
  · simp [hnil]
  · have := List.length_pos_iff.2 hnil
    rw [show p.passed - (p.behind.erase key).length = 1 by omega, List.drop_one]

theorem ahead_deleted_ahead (hkey : key ∉ p.behind) :
    (p.after (.deleted key)).ahead = p.ahead.erase key ∧
      (p.after (.deleted key)).behind = p.behind := by
  have htake : p.behind.length = min p.passed p.keys.length := List.length_take
  have hdrop : p.ahead.length = p.keys.length - p.passed := List.length_drop
  change (p.keys.erase key).drop p.passed = _ ∧ (p.keys.erase key).take p.passed = _
  rw [← behind_append_ahead, List.erase_append_right _ hkey, List.drop_append, List.take_append,
    List.drop_eq_nil_of_le (by omega), List.take_of_length_le (by omega)]
  by_cases hle : p.passed ≤ p.keys.length
  · simp [show p.passed - p.behind.length = 0 by omega]
  · have hnil : p.ahead = [] := List.length_eq_zero_iff.1 (by omega)
    simp [hnil]

theorem count_ahead (p : Place) (key : String) :
    p.ahead.count key = p.next?.toList.count key + p.ahead.tail.count key := by
  rw [next?_eq_head?]
  cases p.ahead <;> simp [List.count_cons, Nat.add_comm]

/-- A key that is ahead stays there until the walk yields it or misses it. -/
theorem count_ahead_after (hkey : key ∈ p.keys) (hm : m ≠ .deleted key)
    (hnext : ∀ k, m.key? = some k → p.next? = some k) :
    p.ahead.count key =
      m.key?.toList.count key + (p.missed m).count key + (p.after m).ahead.count key := by
  have hstep : (p.keys.drop (p.passed + 1)) = p.ahead.tail := by simp [ahead, List.tail_drop]
  cases m with
  | yielded k v =>
    rw [count_ahead, hnext k rfl, ← hstep]
    rfl
  | failed e =>
    rw [count_ahead, ← hstep]
    simp [Move.key?, missed, after, ahead]
  | stored k =>
    obtain ⟨added, hahead, hadded⟩ := ahead_stored p k
    have hnot : key ∉ added := fun h => (hadded key h).2 hkey
    simp [hahead, Move.key?, missed, List.count_eq_zero_of_not_mem hnot]
  | deleted k =>
    by_cases hk : k ∈ p.behind
    · rw [ahead_deleted_behind hk, count_ahead]
      simp [Move.key?, missed, hk]
    · have hne : key ≠ k := fun e => hm (e ▸ rfl)
      rw [(ahead_deleted_ahead hk).1]
      simp [Move.key?, missed, hk, List.count_erase_of_ne hne]
  | _ => simp [Move.key?, missed, after]

/-- Over a whole walk, a key that was ahead and that was not deleted has been yielded, or has been
missed, or is still ahead. -/
theorem count_ahead_run (hkey : key ∈ p.keys) (hdeleted : .deleted key ∉ moves)
    (hleads : p.Leads moves) :
    p.ahead.count key =
      (yields moves).count key + (p.missedIn moves).count key + (p.run moves).ahead.count key := by
  induction moves generalizing p with
  | nil => simp [yields, missedIn]
  | cons m moves ih =>
    have hm : m ≠ .deleted key := fun e => hdeleted (e ▸ .head _)
    have hstep := count_ahead_after hkey hm hleads.1
    have hrest := ih (mem_after hkey hm) (fun h => hdeleted (.tail _ h)) hleads.2
    simp only [yields_cons, missedIn, List.count_append, run_cons]
    omega

/-! ## Keys behind -/

/-- Only a deletion brings a key back from behind the walk. -/
theorem behind_after (hkey : key ∈ p.behind) (hm : m ≠ .deleted key) : key ∈ (p.after m).behind := by
  cases m with
  | yielded _ _ | failed _ => exact List.take_subset_take_left _ (Nat.le_succ _) hkey
  | stored k =>
    simp only [after, behind]
    split
    · exact hkey
    · rw [List.take_append]
      exact List.mem_append_left _ hkey
  | deleted k =>
    have hne : key ≠ k := fun e => hm (e ▸ rfl)
    by_cases hk : k ∈ p.behind
    · have hle : p.behind.length ≤ p.passed := List.length_take_le ..
      have := (List.erase_sublist (a := k) (l := p.behind)).length_le
      change key ∈ (p.keys.erase k).take p.passed
      rw [← behind_append_ahead, List.erase_append_left _ hk, List.take_append,
        List.take_of_length_le (by omega)]
      exact List.mem_append_left _ ((List.mem_erase_of_ne hne).2 hkey)
    · rwa [(ahead_deleted_ahead hk).2]
  | _ => exact hkey

theorem behind_run (hkey : key ∈ p.behind) (hdeleted : .deleted key ∉ moves) :
    key ∈ (p.run moves).behind := by
  induction moves generalizing p with
  | nil => exact hkey
  | cons m moves ih =>
    exact ih (behind_after hkey fun e => hdeleted (e ▸ .head _)) fun h => hdeleted (.tail _ h)

theorem stored_of_mem_run (hkey : key ∉ p.keys) (hmem : key ∈ (p.run moves).keys) :
    .stored key ∈ moves := by
  induction moves generalizing p with
  | nil => exact absurd hmem hkey
  | cons m moves ih =>
    by_cases hm : m = .stored key
    · exact hm ▸ .head _
    · refine .tail _ (ih (fun h => hkey ?_) hmem)
      cases m with
      | stored k =>
        simp only [after] at h
        split at h
        · exact h
        · refine (List.mem_append.1 h).resolve_right fun hk => hm ?_
          rw [List.mem_singleton.1 hk]
      | deleted k => exact List.mem_of_mem_erase h
      | _ => exact h

theorem not_mem_behind_of_next? (hp : p.keys.Nodup) (hnext : p.next? = some key) :
    key ∉ p.behind := by
  rw [← behind_append_ahead] at hp
  rw [next?_eq_head?] at hnext
  exact fun h => (List.nodup_append.1 hp).2.2 key h key (List.mem_of_head? hnext) rfl

/-- A key that falls behind and becomes the next again was deleted and stored meanwhile. -/
theorem restored (hp : p.keys.Nodup) (hkey : key ∈ p.behind)
    (hnext : (p.run moves).next? = some key) : [.deleted key, .stored key].Sublist moves := by
  have hdeleted : .deleted key ∈ moves := by
    refine Classical.byContradiction fun h => ?_
    exact not_mem_behind_of_next? (nodup_run hp moves) hnext (behind_run hkey h)
  obtain ⟨as, bs, rfl⟩ := List.append_of_mem hdeleted
  rw [run_append, run_cons] at hnext
  have hnot : key ∉ ((p.run as).after (.deleted key)).keys := (nodup_run hp as).not_mem_erase
  have hmem := List.mem_of_getElem? hnext
  have hstored := stored_of_mem_run hnot hmem
  refine List.Sublist.trans ?_ (List.sublist_append_right ..)
  exact .cons_cons _ (List.singleton_sublist.2 hstored)

theorem leads_append {as bs : List Move} :
    p.Leads (as ++ bs) ↔ p.Leads as ∧ (p.run as).Leads bs := by
  induction as generalizing p with
  | nil => simp [Leads]
  | cons m as ih => simp [Leads, ih, and_assoc]

/-- A key that is yielded twice was deleted and stored again in between. -/
theorem Leads.restored {a b c : List Move} {v v' : Value} (hp : p.keys.Nodup)
    (hleads : p.Leads (a ++ .yielded key v :: (b ++ .yielded key v' :: c))) :
    [.deleted key, .stored key].Sublist b := by
  obtain ⟨-, hfirst, hrest⟩ := leads_append.1 hleads
  obtain ⟨-, hsecond, -⟩ := leads_append.1 hrest
  have hnext : (p.run a).keys[(p.run a).passed]? = some key := hfirst key rfl
  refine Place.restored (nodup_after (nodup_run hp a) _) ?_ (hsecond key rfl)
  change key ∈ (p.run a).keys.take ((p.run a).passed + 1)
  rw [List.take_add_one, hnext]
  exact List.mem_append_right _ (List.mem_singleton.2 rfl)

/-- By the end of a walk, each key that was there all the time was yielded or missed, and that once. -/
theorem Leads.count_eq_one (hleads : p.Leads moves) (hp : p.keys.Nodup) (hpassed : p.passed = 0)
    (hkey : key ∈ p.keys) (hdeleted : .deleted key ∉ moves) (hend : (p.run moves).next? = none) :
    (yields moves).count key + (p.missedIn moves).count key = 1 := by
  have hcount := count_ahead_run hkey hdeleted hleads
  have hall : p.ahead.count key = 1 := by
    rw [ahead, hpassed, List.drop_zero]
    exact List.count_eq_one_of_mem hp hkey
  have hnone : (p.run moves).ahead = [] := by
    rw [next?_eq_head?] at hend
    exact List.head?_eq_none_iff.1 hend
  rw [hall, hnone, List.count_nil] at hcount
  omega

/-! ## Walks that miss nothing -/

theorem passed_le_of_behind {q : Place} (hle : p.passed ≤ p.keys.length)
    (hbehind : q.behind = p.behind) (hpassed : q.passed = p.passed) : q.passed ≤ q.keys.length := by
  have hlength := congrArg List.length hbehind
  simp only [behind, List.length_take, hpassed] at hlength
  omega

/-- While the host deletes no key that lies behind the walk, the walk misses none, and behind it lie
only keys that it has yielded. -/
theorem missedIn_eq_nil (seen : List String) (hgoes : ∀ m ∈ moves, m.GoesOn)
    (hleads : p.Leads moves) (hseen : p.behind ⊆ seen) (hle : p.passed ≤ p.keys.length)
    (hdeletes : ∀ as key bs, moves = as ++ .deleted key :: bs → key ∉ seen ++ yields as) :
    p.missedIn moves = [] := by
  induction moves generalizing p seen with
  | nil => rfl
  | cons m moves ih =>
    have hgoes' : ∀ m ∈ moves, m.GoesOn := fun m h => hgoes m (.tail _ h)
    have hdeletes' (as key bs) (h : moves = as ++ .deleted key :: bs) :
        key ∉ seen ++ yields (m :: as) := hdeletes (m :: as) key bs (h ▸ rfl)
    simp only [yields_cons, ← List.append_assoc] at hdeletes'
    cases m with
    | failed e => exact (hgoes _ (.head _)).elim
    | ended => exact (hgoes _ (.head _)).elim
    | yielded k v =>
      have hk : p.keys[p.passed]? = some k := hleads.1 k rfl
      have hlt := (List.getElem?_eq_some_iff.1 hk).1
      refine ih _ hgoes' hleads.2 (fun a ha => ?_) hlt hdeletes'
      change a ∈ p.keys.take (p.passed + 1) at ha
      rw [List.take_add_one, hk] at ha
      exact List.mem_append.2 ((List.mem_append.1 ha).imp_left fun h => hseen h)
    | stored k =>
      have hbehind : (p.after (.stored k)).behind = p.behind := by
        simp only [after, behind]
        split
        · rfl
        · exact List.take_append_of_le_length hle
      exact ih _ hgoes' hleads.2 (by simpa [Move.key?, hbehind] using hseen)
        (passed_le_of_behind hle hbehind rfl) hdeletes'
    | deleted k =>
      have hk : k ∉ p.behind := fun h => hdeletes [] k moves rfl (by simpa [yields] using hseen h)
      have hbehind := (ahead_deleted_ahead hk).2
      have hmissed : p.missed (.deleted k) = [] := by simp [missed, hk]
      rw [missedIn, hmissed, List.nil_append]
      exact ih _ hgoes' hleads.2 (by simpa [Move.key?, hbehind] using hseen)
        (passed_le_of_behind hle hbehind rfl) hdeletes'
    | rejected _ | shared =>
      exact ih _ hgoes' hleads.2 (fun a ha => List.mem_append_left _ (hseen ha)) hle hdeletes'

end Place

end Embedding
