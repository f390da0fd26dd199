/-!
# Insertion-ordered dictionaries

A dictionary is the list of its entries in the order in which their keys first arrived. Storing
under a present key keeps its place, and erasing a key closes the gap.
-/

namespace Embedding

/-- Entries by key, in insertion order. Every operation below keeps the keys distinct. -/
abbrev Dict (α : Type) := List (String × α)

namespace Dict
variable {α β : Type}

def get? : Dict α → String → Option α
  | [], _ => none
  | (k, v) :: d, key => if k = key then some v else get? d key

def contains (d : Dict α) (key : String) : Bool := (d.get? key).isSome

/-- Stores `value`: a present key keeps its place, a new one goes to the end. -/
def insert : Dict α → String → α → Dict α
  | [], key, value => [(key, value)]
  | (k, v) :: d, key, value =>
    if k = key then (k, value) :: d else (k, v) :: insert d key value

def erase : Dict α → String → Dict α
  | [], _ => []
  | (k, v) :: d, key => if k = key then d else (k, v) :: erase d key

def keys (d : Dict α) : List String := d.map (·.1)

def values (d : Dict α) : List α := d.map (·.2)

/-- Stores the pairs from left to right, so a repeated key keeps its first place and its last value. -/
def ofPairs (pairs : List (String × α)) : Dict α :=
  pairs.foldl (fun d p => d.insert p.1 p.2) []

theorem get?_insert (d : Dict α) (key k : String) (value : α) :
    (d.insert key value).get? k = if key = k then some value else d.get? k := by
  induction d with
  | nil => simp [insert, get?]
  | cons p d ih =>
    obtain ⟨k', v'⟩ := p
    by_cases h : k' = key
    · subst h; by_cases hk : k' = k <;> simp [insert, get?, hk]
    · by_cases hk : k' = k
      · subst hk; simp [insert, get?, h, Ne.symm h]
      · simp [insert, get?, h, hk, ih]

theorem keys_insert (d : Dict α) (key : String) (value : α) :
    (d.insert key value).keys = if key ∈ d.keys then d.keys else d.keys ++ [key] := by
  induction d with
  | nil => simp [insert, keys]
  | cons p d ih =>
    obtain ⟨k, v⟩ := p
    by_cases h : k = key
    · simp [insert, keys, h]
    · simp only [keys] at ih
      have h' : ¬ key = k := fun e => h e.symm
      by_cases hm : key ∈ d.map (·.1) <;> simp_all [insert, keys]

theorem get?_eq_none_iff {d : Dict α} {key : String} : d.get? key = none ↔ key ∉ d.keys := by
  induction d with
  | nil => simp [get?, keys]
  | cons p d ih =>
    obtain ⟨k, v⟩ := p
    simp only [keys] at ih
    by_cases h : k = key
    · simp [get?, keys, h]
    · simp [get?, keys, h, ih, Ne.symm h]

theorem keys_erase (d : Dict α) (key : String) : (d.erase key).keys = d.keys.erase key := by
  induction d with
  | nil => rfl
  | cons p d ih =>
    obtain ⟨k, v⟩ := p
    simp only [keys] at ih
    by_cases h : k = key <;> simp [erase, keys, h, ih]

theorem nodup_keys_insert {d : Dict α} (hd : d.keys.Nodup) (key : String) (value : α) :
    (d.insert key value).keys.Nodup := by
  rw [keys_insert]
  split
  · exact hd
  · next h =>
    refine List.nodup_append.2 ⟨hd, by simp, ?_⟩
    rintro a ha b hb rfl
    exact h (List.mem_singleton.1 hb ▸ ha)

theorem nodup_keys_erase {d : Dict α} (hd : d.keys.Nodup) (key : String) :
    (d.erase key).keys.Nodup := keys_erase d key ▸ hd.erase key

theorem get?_erase {d : Dict α} (hd : d.keys.Nodup) (key k : String) :
    (d.erase key).get? k = if key = k then none else d.get? k := by
  induction d with
  | nil => simp [erase, get?]
  | cons p d ih =>
    obtain ⟨k', v'⟩ := p
    obtain ⟨hnot, hd⟩ := List.nodup_cons.1 hd
    have ih := ih hd
    by_cases h : k' = key
    · subst h
      by_cases hk : k' = k
      · subst hk
        simpa [erase] using get?_eq_none_iff.2 hnot
      · simp [erase, get?, hk]
    · by_cases hk : k' = k
      · subst hk; simp [erase, get?, h, Ne.symm h]
      · simp [erase, get?, h, hk, ih]

end Dict

end Embedding
