import Mathlib
import Embedding.Host.Extraction
import Embedding.Proofs.Ends

/-!
# Extraction of integers

The number that a value is, in exact arithmetic, and the integers that the value can be taken as.
The bits of a floating-point number are read here as the standard's fields define them, without the
integers and powers of two that the library computes with.
-/

namespace Embedding

/-! ## The number that the bits denote -/

namespace Binary64

/-- The number that the bits denote, if they denote one: a sign, and the fraction times a power of
two, with an implicit leading one unless the exponent's field is 0. -/
def number? (x : Binary64) : Option ℚ :=
  let sign : ℚ := if x.isNegative then -1 else 1
  let exponent : Nat := x.magnitude / 2 ^ 52
  let fraction : ℚ := (x.magnitude % 2 ^ 52 : Nat) / 2 ^ 52
  if exponent = 2047 then none
  else if exponent = 0 then some (sign * fraction * 2 ^ (-1022 : ℤ))
  else some (sign * (1 + fraction) * 2 ^ ((exponent : ℤ) - 1023))

def signed (negative : Bool) (n : Nat) : ℤ := if negative then -n else n

theorem point_moved (a : ℚ) (e : ℤ) : a / 2 ^ 52 * 2 ^ e = a * 2 ^ (e - 52) := by
  rw [zpow_sub₀ (by norm_num), div_mul_eq_mul_div, mul_div_assoc]
  rfl

theorem number?_eq (x : Binary64) : x.number? =
    match x.value with
    | .finite negative m q => some (signed negative m * 2 ^ q)
    | _ => none := by
  have hsign (m : Nat) : ((signed x.isNegative m : ℤ) : ℚ) = (if x.isNegative then -1 else 1) * m := by
    cases x.isNegative <;> simp [signed]
  unfold number? value
  generalize x.magnitude / 2 ^ 52 = e
  generalize x.magnitude % 2 ^ 52 = f
  dsimp only
  by_cases hmax : e = 2047
  · rw [if_pos hmax, if_pos hmax]
    by_cases hf : f = 0
    · rw [if_pos hf]
    · rw [if_neg hf]
  rw [if_neg hmax, if_neg hmax]
  by_cases hzero : e = 0
  · rw [if_pos hzero, if_pos hzero]
    simp only [hsign, mul_assoc, point_moved]
    rfl
  · have hlead : (1 : ℚ) + f / 2 ^ 52 = (2 ^ 52 + f : Nat) / 2 ^ 52 := by
      push_cast
      field_simp
      norm_num
    rw [if_neg hzero, if_neg hzero]
    simp only [hsign, hlead, mul_assoc, point_moved]
    rw [show (e : ℤ) - 1023 - 52 = e - 1075 by omega]

/-! ## Integers among the numbers -/

theorem truncateValue_eq {m : Nat} {q : ℤ} (h : valueIsIntegral m q = true) :
    (m : ℚ) * 2 ^ q = truncateValue m q := by
  unfold truncateValue
  unfold valueIsIntegral at h
  simp only [Bool.or_eq_true, decide_eq_true_eq] at h
  by_cases hq : 0 ≤ q
  · lift q to ℕ using hq
    simp
  · -- the power divides the significand
    obtain ⟨k, rfl⟩ : ∃ k : ℕ, q = -k := ⟨(-q).toNat, by omega⟩
    obtain ⟨n, rfl⟩ := Nat.dvd_of_mod_eq_zero (h.resolve_left hq)
    rw [if_neg hq, neg_neg, Int.toNat_natCast, Nat.mul_div_cancel_left _ (Nat.two_pow_pos k), zpow_neg,
      zpow_natCast]
    push_cast
    field_simp

theorem valueIsIntegral_of_eq {m : Nat} {q n : ℤ} (h : (m : ℚ) * 2 ^ q = n) :
    valueIsIntegral m q = true := by
  unfold valueIsIntegral
  simp only [Bool.or_eq_true, decide_eq_true_eq]
  by_cases hq : 0 ≤ q
  · exact .inl hq
  · obtain ⟨k, rfl⟩ : ∃ k : ℕ, q = -k := ⟨(-q).toNat, by omega⟩
    have hm : (m : ℤ) = n * 2 ^ k := by
      rw [zpow_neg, zpow_natCast, ← div_eq_mul_inv, div_eq_iff (by positivity)] at h
      exact_mod_cast h
    have hdvd : ((2 ^ k : ℕ) : ℤ) ∣ m := ⟨n, by rw [hm]; push_cast; ring⟩
    rw [neg_neg, Int.toNat_natCast]
    exact .inr (Nat.mod_eq_zero_of_dvd (Int.natCast_dvd_natCast.1 hdvd))

theorem mul_zpow_eq_iff {m : Nat} {q n : ℤ} :
    (m : ℚ) * 2 ^ q = n ↔ valueIsIntegral m q = true ∧ n = truncateValue m q := by
  constructor
  · intro h
    have hintegral := valueIsIntegral_of_eq h
    rw [truncateValue_eq hintegral] at h
    exact ⟨hintegral, by exact_mod_cast h.symm⟩
  · rintro ⟨hintegral, rfl⟩
    rw [truncateValue_eq hintegral, Int.cast_natCast]

theorem signed_mul_zpow_eq_iff {negative : Bool} {m : Nat} {q n : ℤ} :
    (signed negative m : ℚ) * 2 ^ q = n ↔
      valueIsIntegral m q = true ∧ n = signed negative (truncateValue m q) := by
  cases negative with
  | false => simpa [signed] using mul_zpow_eq_iff (n := n)
  | true =>
    have hneg : (signed true m : ℚ) * 2 ^ q = n ↔ (m : ℚ) * 2 ^ q = (-n : ℤ) := by
      simp [signed, neg_eq_iff_eq_neg]
    rw [hneg, mul_zpow_eq_iff]
    simp [signed, neg_eq_iff_eq_neg]

/-- A floating-point number with no fractional part is an integer and becomes the word nearest to it,
and no other is an integer. -/
theorem integral_or_not (x : Binary64) :
    (∃ n : ℤ, x.number? = some (n : ℚ) ∧ x.isIntegral = true ∧ x.toInt64 = clampInt64 n) ∨
      ((∀ n : ℤ, x.number? ≠ some (n : ℚ)) ∧ x.isIntegral = false) := by
  rw [number?_eq, isIntegral, toInt64]
  cases x.value with
  | nan | infinite => exact .inr ⟨nofun, rfl⟩
  | finite negative m q =>
    dsimp only
    cases hintegral : valueIsIntegral m q with
    | true =>
      exact .inl ⟨signed negative (truncateValue m q),
        congrArg some (signed_mul_zpow_eq_iff.2 ⟨hintegral, rfl⟩), rfl, rfl⟩
    | false =>
      refine .inr ⟨fun n hn => ?_, rfl⟩
      rw [(signed_mul_zpow_eq_iff.1 (Option.some.inj hn)).1] at hintegral
      cases hintegral

end Binary64

/-! ## Words -/

theorem except_bind_eq_ok {ε α β : Type} {x : Except ε α} {f : α → Except ε β} {b : β} :
    x >>= f = .ok b ↔ ∃ a, x = .ok a ∧ f a = .ok b := by
  cases x with
  | error e => exact ⟨nofun, nofun⟩
  | ok a => exact ⟨fun h => ⟨a, rfl, h⟩, fun ⟨_, ha, h⟩ => by cases ha; exact h⟩

def nearestWord (n : ℤ) : ℤ := max (-2 ^ 63) (min n (2 ^ 63 - 1))

theorem nearestWord_of_mem {n : ℤ} (hlow : -2 ^ 63 ≤ n) (hhigh : n < 2 ^ 63) : nearestWord n = n := by
  unfold nearestWord
  omega

theorem toInt_clampInt64 (n : ℤ) : (Binary64.clampInt64 n).toInt = nearestWord n :=
  Int64.toInt_ofInt_of_le (by omega) (by omega)

/-! ## The number that a value is -/

namespace Value

/-- The number that a value is, if it is one. A truth value counts as 0 or 1. -/
def number? : Value → Option ℚ
  | .int n => some n.toInt
  | .bool b => some (if b then 1 else 0)
  | .float x => x.number?
  | _ => none

theorem toInt64_eq_ok_iff (v : Value) (n : Int64) :
    v.toInt64 = .ok n ↔ ∃ i : ℤ, v.number? = some (i : ℚ) ∧ n.toInt = nearestWord i := by
  have hself (m : Int64) : nearestWord m.toInt = m.toInt := nearestWord_of_mem m.le_toInt m.toInt_lt
  have hword (m : Int64) : (Except.ok m : Except HostError Int64) = .ok n ↔
      ∃ i : ℤ, some (m.toInt : ℚ) = some (i : ℚ) ∧ n.toInt = nearestWord i := by
    simp only [Except.ok.injEq, Option.some.injEq, Int.cast_inj, exists_eq_left', hself]
    rw [Int64.toInt_inj, eq_comm]
  cases v with
  | int m => exact hword m
  | bool b => cases b with
    | false => simpa [toInt64, number?] using hword 0
    | true => simpa [toInt64, number?] using hword 1
  | float x =>
    rw [toInt64, number?]
    rcases x.integral_or_not with ⟨i, hnumber, hintegral, hword⟩ | ⟨hnumber, hintegral⟩
    · rw [if_pos hintegral, hword, hnumber]
      simp only [Except.ok.injEq, Option.some.injEq, Int.cast_inj, exists_eq_left']
      rw [← toInt_clampInt64, Int64.toInt_inj, eq_comm]
    · rw [if_neg (by simp [hintegral])]
      constructor
      · intro h
        cases h
      · rintro ⟨i, hi, -⟩
        exact absurd hi (hnumber i)
  | _ =>
    constructor
    · intro h
      cases h
    · rintro ⟨_, hi, -⟩
      cases hi

theorem toInt32_eq_ok_iff (v : Value) (n : Int32) :
    v.toInt32 = .ok n ↔ v.number? = some (n.toInt : ℚ) := by
  have hlow := n.le_toInt
  have hhigh := n.toInt_lt
  constructor
  · intro h
    obtain ⟨m, hm, h⟩ := except_bind_eq_ok.1 h
    obtain ⟨i, hnumber, hi⟩ := (v.toInt64_eq_ok_iff m).1 hm
    by_cases hrange : -2 ^ 31 ≤ m.toInt ∧ m.toInt < 2 ^ 31
    · rw [if_pos hrange] at h
      cases h
      -- the ends of the words are out of range, so the word is the number
      have hexact : m.toInt = i := by
        unfold nearestWord at hi
        omega
      rw [hnumber, Int64.toInt_toInt32, Int.bmod_eq_of_le (by omega) (by omega), hexact]
    · rw [if_neg hrange] at h
      cases h
  · intro hnumber
    have hword : v.toInt64 = .ok n.toInt64 := (v.toInt64_eq_ok_iff _).2
      ⟨n.toInt, hnumber, by rw [Int32.toInt_toInt64, nearestWord_of_mem (by omega) (by omega)]⟩
    refine except_bind_eq_ok.2 ⟨_, hword, ?_⟩
    rw [if_pos (by rw [Int32.toInt_toInt64]; exact ⟨hlow, hhigh⟩), Int32.toInt32_toInt64]

theorem toSize_eq_ok_iff (v : Value) (n : Nat) :
    v.toSize = .ok n ↔ ∃ i : ℤ, v.number? = some (i : ℚ) ∧ 0 ≤ i ∧ n = nearestWord i := by
  constructor
  · intro h
    obtain ⟨m, hm, h⟩ := except_bind_eq_ok.1 h
    obtain ⟨i, hnumber, hi⟩ := (v.toInt64_eq_ok_iff m).1 hm
    by_cases hrange : 0 ≤ m.toInt
    · rw [if_pos hrange] at h
      cases h
      refine ⟨i, hnumber, ?_, by omega⟩
      unfold nearestWord at hi
      omega
    · rw [if_neg hrange] at h
      cases h
  · rintro ⟨i, hnumber, hpos, hn⟩
    have hword : (Int64.ofInt n).toInt = n := by
      unfold nearestWord at hn
      exact Int64.toInt_ofInt_of_le (by omega) (by omega)
    refine except_bind_eq_ok.2
      ⟨Int64.ofInt n, (v.toInt64_eq_ok_iff _).2 ⟨i, hnumber, hword.trans hn⟩, ?_⟩
    rw [hword, if_pos (by omega), Int.toNat_natCast]

end Value

/-! ## Extraction -/

theorem exists_nearestWord_iff {r : ℚ} (hlow : -2 ^ 63 ≤ r) (hhigh : r < 2 ^ 63) (n : ℤ) :
    (∃ i : ℤ, some r = some (i : ℚ) ∧ n = nearestWord i) ↔ r = n := by
  constructor
  · rintro ⟨i, hi, rfl⟩
    cases hi
    rw [nearestWord_of_mem (by exact_mod_cast hlow) (by exact_mod_cast hhigh)]
  · rintro rfl
    exact ⟨n, rfl, (nearestWord_of_mem (by exact_mod_cast hlow) (by exact_mod_cast hhigh)).symm⟩

/-- Exactly the integers among the numbers can be taken as integers: one that fits the type is taken as
itself, and one beyond the 64-bit words as the word that is nearest. -/
theorem integer_extraction (v : Value) (w : World) :
    (∀ n : Int32, ((v.extract .int32).run w).1 = .ok n ↔ v.number? = some (n.toInt : ℚ)) ∧
    (∀ n : Int64, ((v.extract .int64).run w).1 = .ok n ↔
      ∃ i : ℤ, v.number? = some (i : ℚ) ∧ n.toInt = nearestWord i) ∧
    (∀ n : Nat, ((v.extract .size).run w).1 = .ok n ↔
      ∃ i : ℤ, v.number? = some (i : ℚ) ∧ 0 ≤ i ∧ n = nearestWord i) ∧
    ∀ r, v.number? = some r → -2 ^ 63 ≤ r → r < 2 ^ 63 →
      (∀ n : Int64, ((v.extract .int64).run w).1 = .ok n ↔ r = n.toInt) ∧
      ∀ n : Nat, ((v.extract .size).run w).1 = .ok n ↔ r = n := by
  simp only [Value.extract, run_ofExcept]
  have hwords := v.toInt64_eq_ok_iff
  have hsizes := v.toSize_eq_ok_iff
  refine ⟨v.toInt32_eq_ok_iff, hwords, hsizes, fun r hnumber hlow hhigh => ?_⟩
  rw [hnumber] at hwords hsizes
  refine ⟨fun n => (hwords n).trans (exists_nearestWord_iff hlow hhigh n.toInt), fun n => ?_⟩
  refine (hsizes n).trans (Iff.trans ?_ (exists_nearestWord_iff hlow hhigh n))
  constructor
  · rintro ⟨i, hi, -, hn⟩
    exact ⟨i, hi, hn⟩
  · rintro ⟨i, hi, hn⟩
    refine ⟨i, hi, ?_, hn⟩
    unfold nearestWord at hn
    omega

/-- The least number above the words, 2 ^ 63. -/
def aboveWords : Binary64 := ⟨0x43e0000000000000⟩

theorem number?_aboveWords : aboveWords.number? = some ((2 ^ 63 : ℤ) : ℚ) := by
  have hvalue : aboveWords.value = .finite false (2 ^ 52) 11 := by decide
  rw [Binary64.number?_eq, hvalue]
  norm_num [Binary64.signed]

theorem not_exact_above_words : ¬ ∀ (v : Value) (w : World) (n : Int64),
    ((v.extract .int64).run w).1 = .ok n → v.number? = some (n.toInt : ℚ) := by
  intro hexact
  have htaken : (Value.float aboveWords).toInt64 = .ok Int64.maxValue := by rfl
  have hnumber := hexact (.float aboveWords) {} Int64.maxValue (by rw [Value.extract, run_ofExcept, htaken])
  rw [Value.number?, number?_aboveWords, Option.some.injEq, Int.cast_inj] at hnumber
  cases hnumber

end Embedding
