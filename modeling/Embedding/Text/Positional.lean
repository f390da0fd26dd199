/-!
# Positional numerals

The number that digits write in a base. Reading the digits one after another takes a step over the
whole number for each of them, so long numerals are read by joining neighbours to digits of the
squared base. `ofDigits_eq_foldl` says that both ways give the same number.
-/

namespace Embedding.Positional

/-- The number that digits write, the lowest digit first. -/
def ofLowest (base : Nat) (ds : List Nat) : Nat := ds.foldr (fun d n => d + base * n) 0

/-- Each pair of neighbours as one digit of the squared base, behind those already joined. -/
def joinPairs (base : Nat) : List Nat → List Nat → List Nat
  | low :: high :: ds, joined => joinPairs base ds ((low + base * high) :: joined)
  | ds, joined => joined.reverseAux ds

theorem ofLowest_joinPairs (base : Nat) (ds joined : List Nat) :
    ofLowest (base * base) (joinPairs base ds joined) =
      joined.foldl (fun n d => d + base * base * n) (ofLowest base ds) := by
  fun_induction joinPairs base ds joined with
  | case1 joined low high ds ih =>
    rw [ih]
    simp only [ofLowest, List.foldl_cons, List.foldr_cons]
    rw [Nat.mul_add, Nat.mul_assoc base base, Nat.add_assoc]
  | case2 ds joined short =>
    have same : ofLowest (base * base) ds = ofLowest base ds := by
      match ds, short with
      | [], _ => rfl
      | [d], _ => rfl
      | low :: high :: rest, short => exact (short low high rest rfl).elim
    rw [List.reverseAux_eq, ← same]
    simp [ofLowest]

/-- The number that digits write, the lowest digit first, after some rounds of joining. -/
def ofPairs : Nat → Nat → List Nat → Nat
  | 0, base, ds => ofLowest base ds
  | rounds + 1, base, ds => ofPairs rounds (base * base) (joinPairs base ds [])

theorem ofPairs_eq_ofLowest (rounds base : Nat) (ds : List Nat) :
    ofPairs rounds base ds = ofLowest base ds := by
  induction rounds generalizing base ds with
  | zero => rfl
  | succ rounds ih => rw [ofPairs, ih, ofLowest_joinPairs, List.foldl_nil]

/-- The number that digits write. The rounds are as many as leave at most two digits. -/
def ofDigits (base : Nat) (ds : List Nat) : Nat := ofPairs ds.length.log2 base ds.reverse

theorem ofDigits_eq_foldl (base : Nat) (ds : List Nat) :
    ofDigits base ds = ds.foldl (fun n d => base * n + d) 0 := by
  rw [ofDigits, ofPairs_eq_ofLowest, ofLowest, List.foldr_reverse]
  congr 1
  funext n d
  rw [Nat.add_comm]

end Embedding.Positional
