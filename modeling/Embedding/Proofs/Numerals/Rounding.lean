import Mathlib
import Embedding.Proofs.IntegerExtraction

/-!
# The nearest number of the format

A number is rounded to the nearest one of the format, to the even one of two that are as near, and to infinity
from half a unit behind the greatest. The magnitude bits are counted as places on a grid, on which numbers grow
with the bits, so that only the two places around a number need a comparison. The main statement is that a
decimal is read as the number nearest to it.
-/

namespace Embedding.Binary64

/-! ## The grid of the numbers -/

/-- The number that magnitude bits denote. Infinity takes the place of the power of two behind the greatest
number. -/
def gridNumber (k : ℕ) : ℚ :=
  if k / 2 ^ 52 = 0 then (k % 2 ^ 52 : ℕ) * 2 ^ (-1074 : ℤ)
  else (2 ^ 52 + k % 2 ^ 52 : ℕ) * 2 ^ (((k / 2 ^ 52 : ℕ) : ℤ) - 1075)

variable {r : ℚ} {k e n num den : ℕ}

/-- A significand of at most 53 bits and an exponent are on the grid. -/
theorem gridNumber_eq (hn : n ≤ 2 ^ 53) (hnormal : 2 ^ 52 ≤ n ∨ e = 0) :
    gridNumber (e * 2 ^ 52 + n) = n * 2 ^ ((e : ℤ) - 1074) := by
  unfold gridNumber
  rcases lt_trichotomy n (2 ^ 53) with hlt | rfl | hgt
  · by_cases hsmall : n < 2 ^ 52
    · obtain rfl := hnormal.resolve_left (by omega)
      have hdiv : (0 * 2 ^ 52 + n) / 2 ^ 52 = 0 := by omega
      have hmod : (0 * 2 ^ 52 + n) % 2 ^ 52 = n := by omega
      rw [if_pos hdiv, hmod]
      norm_num
    · have hdiv : (e * 2 ^ 52 + n) / 2 ^ 52 = e + 1 := by omega
      have hmod : 2 ^ 52 + (e * 2 ^ 52 + n) % 2 ^ 52 = n := by omega
      rw [hdiv, hmod, if_neg (Nat.succ_ne_zero e)]
      congr 2
      omega
  · have hdiv : (e * 2 ^ 52 + 2 ^ 53) / 2 ^ 52 = e + 2 := by omega
    have hmod : (e * 2 ^ 52 + 2 ^ 53) % 2 ^ 52 = 0 := by omega
    have hstep : ((e + 2 : ℕ) : ℤ) - 1075 = (e : ℤ) - 1074 + 1 := by omega
    rw [hdiv, hmod, if_neg (Nat.succ_ne_zero _), hstep, zpow_add_one₀ two_ne_zero]
    push_cast
    ring
  · omega

theorem exists_place (k : ℕ) : ∃ e n, k = e * 2 ^ 52 + n ∧ n < 2 ^ 53 ∧ (2 ^ 52 ≤ n ∨ e = 0) := by
  by_cases hk : k < 2 ^ 52
  · exact ⟨0, k, by omega, by omega, .inr rfl⟩
  · exact ⟨k / 2 ^ 52 - 1, k % 2 ^ 52 + 2 ^ 52, by omega, by omega, .inl (by omega)⟩

theorem gridNumber_strictMono : StrictMono gridNumber := by
  apply strictMono_nat_of_lt_succ
  intro k
  obtain ⟨e, n, rfl, hn, hnormal⟩ := exists_place k
  have hnext : 2 ^ 52 ≤ n + 1 ∨ e = 0 := hnormal.imp_left Nat.le_succ_of_le
  rw [Nat.add_assoc, gridNumber_eq hn.le hnormal, gridNumber_eq hn hnext]
  apply mul_lt_mul_of_pos_right
  · exact_mod_cast Nat.lt_succ_self n
  · positivity

theorem gridNumber_zero : gridNumber 0 = 0 := by
  simp [gridNumber]

theorem gridNumber_nonneg (k : ℕ) : 0 ≤ gridNumber k := by
  rw [← gridNumber_zero]
  exact gridNumber_strictMono.monotone (Nat.zero_le k)

/-! ## Nearest on the grid -/

/-- The first place is nearer than the second, or as near and either the same or even. -/
def Beats (r : ℚ) (k j : ℕ) : Prop :=
  |gridNumber k - r| < |gridNumber j - r| ∨
    |gridNumber k - r| = |gridNumber j - r| ∧ (j = k ∨ k % 2 = 0)

/-- The place nearest to a number, the even one of two that are. -/
def NearestEven (r : ℚ) (k : ℕ) : Prop := ∀ j, Beats r k j

theorem Beats.le {j : ℕ} (h : Beats r k j) : |gridNumber k - r| ≤ |gridNumber j - r| := by
  rcases h with hlt | ⟨heq, -⟩
  · exact hlt.le
  · exact heq.le

/-- Of the places around a number only the two neighbours count. -/
theorem nearestEven_of_neighbours {i : ℕ} (hlow : gridNumber k ≤ r) (hhigh : r ≤ gridNumber (k + 1))
    (hbelow : Beats r i k) (habove : Beats r i (k + 1)) : NearestEven r i := by
  intro j
  rcases lt_trichotomy j k with hlt | rfl | hgt
  · left
    refine hbelow.le.trans_lt ?_
    have := gridNumber_strictMono hlt
    rw [abs_of_nonpos (by linarith), abs_of_nonpos (by linarith)]
    linarith
  · exact hbelow
  · rcases (Nat.succ_le_of_lt hgt).eq_or_lt with rfl | hgt
    · exact habove
    · left
      refine habove.le.trans_lt ?_
      have := gridNumber_strictMono hgt
      rw [abs_of_nonneg (by linarith), abs_of_nonneg (by linarith)]
      linarith

theorem nearestEven_of_le_middle (hlow : gridNumber k ≤ r)
    (hmiddle : 2 * r < gridNumber k + gridNumber (k + 1) ∨
      2 * r = gridNumber k + gridNumber (k + 1) ∧ k % 2 = 0) : NearestEven r k := by
  have hstep := gridNumber_strictMono (Nat.lt_succ_self k)
  have hhigh : r ≤ gridNumber (k + 1) := by
    rcases hmiddle with hlt | ⟨heq, -⟩ <;> linarith
  refine nearestEven_of_neighbours hlow hhigh (.inr ⟨rfl, .inl rfl⟩) ?_
  rw [Beats, abs_of_nonpos (sub_nonpos.2 hlow), abs_of_nonneg (sub_nonneg.2 hhigh)]
  rcases hmiddle with hlt | ⟨heq, heven⟩
  · exact .inl (by linarith)
  · exact .inr ⟨by linarith, .inr heven⟩

theorem nearestEven_of_middle_le (hhigh : r ≤ gridNumber (k + 1))
    (hmiddle : gridNumber k + gridNumber (k + 1) < 2 * r ∨
      gridNumber k + gridNumber (k + 1) = 2 * r ∧ (k + 1) % 2 = 0) : NearestEven r (k + 1) := by
  have hstep := gridNumber_strictMono (Nat.lt_succ_self k)
  have hlow : gridNumber k ≤ r := by
    rcases hmiddle with hlt | ⟨heq, -⟩ <;> linarith
  refine nearestEven_of_neighbours hlow hhigh ?_ (.inr ⟨rfl, .inl rfl⟩)
  rw [Beats, abs_of_nonpos (sub_nonpos.2 hlow), abs_of_nonneg (sub_nonneg.2 hhigh)]
  rcases hmiddle with hlt | ⟨heq, heven⟩
  · exact .inl (by linarith)
  · exact .inr ⟨by linarith, .inr heven⟩

/-- Behind an odd place the nearest ones begin in the middle to the next. -/
theorem NearestEven.le_iff_of_odd {j : ℕ} (hk : NearestEven r k) (hodd : j % 2 = 1) :
    k ≤ j ↔ 2 * r < gridNumber j + gridNumber (j + 1) := by
  have hstep := gridNumber_strictMono (Nat.lt_succ_self j)
  constructor
  · intro hkj
    by_contra hmiddle
    have hle := gridNumber_strictMono.monotone hkj
    have hdist : |gridNumber k - r| = r - gridNumber k := by
      rw [abs_sub_comm, abs_of_nonneg (by linarith)]
    have hdistNext : |gridNumber (j + 1) - r| ≤ r - gridNumber j := abs_le.2 ⟨by linarith, by linarith⟩
    rcases hk (j + 1) with hlt | ⟨heq, hsame | heven⟩
    · linarith
    · omega
    · -- as far from both, but this place is odd
      have hkj : k = j := gridNumber_strictMono.injective (by linarith)
      omega
  · intro hmiddle
    by_contra hkj
    have hle := gridNumber_strictMono.monotone (Nat.succ_le_of_lt (not_le.1 hkj))
    have hdist : |gridNumber j - r| < gridNumber (j + 1) - r := abs_lt.2 ⟨by linarith, by linarith⟩
    have hnear := (hk j).le
    have := le_abs_self (gridNumber k - r)
    linarith

/-- Zero is nearest to what is less than half of the least positive number. -/
theorem nearestEven_tiny_iff (hpos : 0 ≤ r) (htiny : r < 2 ^ (-1075 : ℤ)) : NearestEven r k ↔ k = 0 := by
  have hleast : gridNumber 1 = 2 ^ (-1074 : ℤ) := by
    have := gridNumber_eq (e := 0) (n := 1) (by norm_num) (.inr rfl)
    simpa using this
  have hhalf : (2 : ℚ) ^ (-1074 : ℤ) = 2 ^ (-1075 : ℤ) * 2 := zpow_add_one₀ two_ne_zero (-1075)
  have hzero : |gridNumber 0 - r| = r := by rw [gridNumber_zero, zero_sub, abs_neg, abs_of_nonneg hpos]
  have hother : ∀ j, j ≠ 0 → r < |gridNumber j - r| := by
    intro j hj
    have := gridNumber_strictMono.monotone (Nat.one_le_iff_ne_zero.2 hj)
    have := le_abs_self (gridNumber j - r)
    linarith
  constructor
  · intro h
    by_contra hk
    have := (h 0).le
    have := hother k hk
    linarith
  · rintro rfl j
    by_cases hj : j = 0
    · subst hj
      exact .inr ⟨rfl, .inl rfl⟩
    · exact .inl (hzero.trans_lt (hother j hj))

theorem nearestEven_roundHalfEven {a b : ℕ} (hb : 0 < b) (hn : a / b < 2 ^ 53)
    (hnormal : 2 ^ 52 ≤ a / b ∨ e = 0) :
    NearestEven (a / b * 2 ^ ((e : ℤ) - 1074)) (e * 2 ^ 52 + roundHalfEven a b) := by
  have hbq : (0 : ℚ) < b := by exact_mod_cast hb
  have hunit : (0 : ℚ) < 2 ^ ((e : ℤ) - 1074) := by positivity
  have hbelow := gridNumber_eq hn.le hnormal
  have habove := gridNumber_eq hn (hnormal.imp_left Nat.le_succ_of_le)
  have hab : (a : ℚ) = b * (a / b : ℕ) + (a % b : ℕ) := by exact_mod_cast (Nat.div_add_mod a b).symm
  have hrest : ((a % b : ℕ) : ℚ) < b := by exact_mod_cast Nat.mod_lt a hb
  have heven : a / b % 2 = 0 → (e * 2 ^ 52 + a / b) % 2 = 0 := by omega
  have hodd : a / b % 2 ≠ 0 → (e * 2 ^ 52 + a / b + 1) % 2 = 0 := by omega
  unfold roundHalfEven
  generalize (2 : ℚ) ^ ((e : ℤ) - 1074) = u at *
  generalize a / b = n at *
  generalize a % b = t at *
  dsimp only
  -- how far the number is from the place below, which is less than a unit
  obtain ⟨d, hd⟩ : ∃ d : ℚ, d = t / b * u := ⟨_, rfl⟩
  have hnumber : (a / b * u : ℚ) = n * u + d := by
    rw [hd, hab]
    field_simp
  have hpos : 0 ≤ d := by rw [hd]; positivity
  have hlt : d < u := by rw [hd, mul_lt_iff_lt_one_left hunit, div_lt_one hbq]; exact hrest
  have hdouble : 2 * d = (2 * t : ℕ) / b * u := by
    rw [hd]
    push_cast
    ring
  have hcompare : 2 * t < b ↔ 2 * d < u := by
    rw [hdouble, mul_lt_iff_lt_one_left hunit, div_lt_one hbq, Nat.cast_lt]
  have htie : 2 * t = b ↔ 2 * d = u := by
    rw [hdouble, mul_eq_right₀ hunit.ne', div_eq_one_iff_eq hbq.ne', Nat.cast_inj]
  rw [Nat.cast_succ, add_one_mul, Nat.succ_eq_add_one, ← Nat.add_assoc] at habove
  rw [hnumber]
  by_cases h : 2 * t < b ∨ 2 * t = b ∧ n % 2 = 0
  · rw [if_pos (by simpa using h)]
    apply nearestEven_of_le_middle
    · linarith
    · rw [hbelow, habove]
      rcases h with hnear | ⟨heq, hn⟩
      · have := hcompare.1 hnear
        exact .inl (by linarith)
      · have := htie.1 heq
        exact .inr ⟨by linarith, heven hn⟩
  · rw [if_neg (by simpa using h), ← Nat.add_assoc]
    rw [not_or, hcompare, htie, not_lt] at h
    apply nearestEven_of_middle_le
    · rw [habove]
      linarith
    · rw [hbelow, habove]
      rcases h.1.lt_or_eq with hnear | heq
      · exact .inl (by linarith)
      · exact .inr ⟨by linarith, hodd fun hn => h.2 ⟨heq.symm, hn⟩⟩

/-! ## Rounding a quotient -/

theorem scale_snd_pos (num : ℕ) (hden : 0 < den) (q : ℤ) : 0 < (scale num den q).2 := by
  unfold scale
  positivity

theorem scale_ratio (num den : ℕ) (q : ℤ) :
    ((scale num den q).1 : ℚ) / (scale num den q).2 = num / den * 2 ^ (-q) := by
  unfold scale
  rcases le_total 0 q with hq | hq
  · lift q to ℕ using hq
    simp [zpow_neg, div_mul_eq_div_div, ← div_eq_mul_inv]
  · obtain ⟨i, rfl⟩ : ∃ i : ℕ, q = -i := ⟨(-q).toNat, by omega⟩
    simp [mul_div_right_comm]

/-- The quotient lies between powers of two that the lengths of its parts give. -/
theorem log2_bounds (hnum : num ≠ 0) (hden : den ≠ 0) :
    (2 : ℚ) ^ ((num.log2 : ℤ) - den.log2 - 1) < num / den ∧
      (num / den : ℚ) < 2 ^ ((num.log2 : ℤ) - den.log2 + 1) := by
  have hnumLow : (2 : ℚ) ^ num.log2 ≤ num := by exact_mod_cast Nat.log2_self_le hnum
  have hnumHigh : (num : ℚ) < 2 ^ (num.log2 + 1) := by exact_mod_cast Nat.lt_log2_self
  have hdenLow : (2 : ℚ) ^ den.log2 ≤ den := by exact_mod_cast Nat.log2_self_le hden
  have hdenHigh : (den : ℚ) < 2 ^ (den.log2 + 1) := by exact_mod_cast Nat.lt_log2_self
  have hpos : (0 : ℚ) < den := by exact_mod_cast Nat.pos_of_ne_zero hden
  constructor
  · rw [lt_div_iff₀ hpos]
    calc (2 : ℚ) ^ ((num.log2 : ℤ) - den.log2 - 1) * den
        < 2 ^ ((num.log2 : ℤ) - den.log2 - 1) * 2 ^ (den.log2 + 1) := by gcongr
      _ = 2 ^ num.log2 := by
        rw [← zpow_natCast, ← zpow_natCast, ← zpow_add₀ two_ne_zero]
        congr 1
        push_cast
        ring
      _ ≤ num := hnumLow
  · rw [div_lt_iff₀ hpos]
    calc (num : ℚ) < 2 ^ (num.log2 + 1) := hnumHigh
      _ = 2 ^ ((num.log2 : ℤ) - den.log2 + 1) * 2 ^ den.log2 := by
        rw [← zpow_natCast, ← zpow_natCast, ← zpow_add₀ two_ne_zero]
        congr 1
        push_cast
        ring
      _ ≤ 2 ^ ((num.log2 : ℤ) - den.log2 + 1) * den := by gcongr

/-- With the exponent that is chosen the significand has 53 bits, unless that would take it below the least
exponent. -/
theorem exponentFor_spec (hnum : num ≠ 0) (hden : den ≠ 0) :
    minExponent ≤ exponentFor num den ∧
      (scale num den (exponentFor num den)).1 / (scale num den (exponentFor num den)).2 < 2 ^ 53 ∧
      (2 ^ 52 ≤ (scale num den (exponentFor num den)).1 / (scale num den (exponentFor num den)).2 ∨
        exponentFor num den = minExponent) := by
  have hpos : 0 < den := Nat.pos_of_ne_zero hden
  obtain ⟨hlow, hhigh⟩ := log2_bounds hnum hden
  -- comparing the significand is comparing the quotient
  have hlt (q : ℤ) (i : ℕ) : (scale num den q).1 / (scale num den q).2 < 2 ^ i ↔
      (num / den : ℚ) < 2 ^ (i + q) := by
    have hsnd : (0 : ℚ) < (scale num den q).2 := by exact_mod_cast scale_snd_pos num hpos q
    rw [Nat.div_lt_iff_lt_mul (scale_snd_pos num hpos q), zpow_add₀ two_ne_zero, ← div_lt_iff₀ (by positivity),
      div_eq_mul_inv, ← zpow_neg, ← scale_ratio, div_lt_iff₀ hsnd, zpow_natCast]
    exact_mod_cast Iff.rfl
  have hle (q : ℤ) (i : ℕ) : 2 ^ i ≤ (scale num den q).1 / (scale num den q).2 ↔
      (2 : ℚ) ^ (i + q) ≤ num / den := by
    rw [← not_lt, hlt, not_lt]
  obtain ⟨q, hq⟩ : ∃ q, q = max ((num.log2 : ℤ) - den.log2 - 53) minExponent := ⟨_, rfl⟩
  have hchosen : exponentFor num den =
      if 2 ^ 53 ≤ (scale num den q).1 / (scale num den q).2 then q + 1 else q := by
    rw [hq]
    rfl
  have hlength : (num.log2 : ℤ) - den.log2 - 53 ≤ q := hq ▸ le_max_left _ _
  have hleast : minExponent ≤ q := hq ▸ le_max_right _ _
  by_cases hlong : 2 ^ 53 ≤ (scale num den q).1 / (scale num den q).2
  · rw [hchosen, if_pos hlong]
    refine ⟨by omega, (hlt _ 53).2 ?_, .inl ((hle _ 52).2 ?_)⟩
    · exact hhigh.trans_le (zpow_le_zpow_right₀ one_le_two (by push_cast; omega))
    · have hquotient := (hle q 53).1 hlong
      rwa [show ((53 : ℕ) : ℤ) + q = (52 : ℕ) + (q + 1) by push_cast; ring] at hquotient
  · rw [hchosen, if_neg hlong]
    refine ⟨hleast, not_le.1 hlong, ?_⟩
    rcases max_choice ((num.log2 : ℤ) - den.log2 - 53) minExponent with h | h
    · left
      rw [h] at hq
      rw [hle, show ((52 : ℕ) : ℤ) + q = num.log2 - den.log2 - 1 by rw [hq]; push_cast; ring]
      exact hlow.le
    · exact .inr (hq.trans h)

/-- A quotient is rounded to the nearest place, and to infinity if that is behind the numbers. -/
theorem nearestEven_roundRatio (num : ℕ) (hden : den ≠ 0) :
    ∃ k, NearestEven (num / den) k ∧ roundRatio num den = min k infinityBits := by
  by_cases hnum : num = 0
  · subst hnum
    refine ⟨0, ?_, by simp [roundRatio]⟩
    rw [Nat.cast_zero, zero_div]
    exact (nearestEven_tiny_iff le_rfl (by positivity)).2 rfl
  · obtain ⟨hleast, hlt, hnormal⟩ := exponentFor_spec hnum hden
    have hratio := scale_ratio num den (exponentFor num den)
    have hsnd := scale_snd_pos num (Nat.pos_of_ne_zero hden) (exponentFor num den)
    have hround : roundRatio num den =
        min ((exponentFor num den - minExponent).toNat * 2 ^ 52 +
          roundHalfEven (scale num den (exponentFor num den)).1 (scale num den (exponentFor num den)).2)
          infinityBits := if_neg hnum
    generalize exponentFor num den = q at *
    obtain ⟨e, rfl⟩ : ∃ e : ℕ, q = e - 1074 := ⟨(q - minExponent).toNat, by unfold minExponent at *; omega⟩
    have he : ((e : ℤ) - 1074 - minExponent).toNat = e := by unfold minExponent; omega
    rw [he] at hround
    refine ⟨_, ?_, hround⟩
    have hnearest := nearestEven_roundHalfEven hsnd hlt (e := e)
      (hnormal.imp_right fun h => by unfold minExponent at h; omega)
    rw [hratio, mul_assoc, ← zpow_add₀ two_ne_zero, neg_add_cancel, zpow_zero, mul_one] at hnearest
    exact hnearest

/-! ## Rounding to the format -/

def withSign (negative : Bool) (r : ℚ) : ℚ := if negative then -r else r

theorem abs_withSign_sub (negative : Bool) (a b : ℚ) :
    |withSign negative a - withSign negative b| = |a - b| := by
  cases negative
  · rfl
  · simp only [withSign, if_true, neg_sub_neg]
    exact abs_sub_comm b a

theorem withSign_sub (negative : Bool) (a b : ℚ) :
    |withSign (!negative) a - withSign negative b| = |a + b| := by
  cases negative
  · simp only [withSign, Bool.not_false, if_true, Bool.false_eq_true, if_false]
    rw [← abs_neg]
    congr 1
    ring
  · simp only [withSign, Bool.not_true, if_true, Bool.false_eq_true, if_false, sub_neg_eq_add]

/-- A number of the format is the nearest to `r`, or to `-r` with a minus, and of two that are the one with an
even significand. From half a unit behind the greatest number on it is infinite. -/
structure Rounds (negative : Bool) (r : ℚ) (x : Binary64) : Prop where
  sign : x.isNegative = negative
  finite : r < 2 ^ 1024 - 2 ^ 970 → ∃ a, x.number? = some a ∧ ∀ (y : Binary64) b, y.number? = some b →
    |a - withSign negative r| < |b - withSign negative r| ∨
      |a - withSign negative r| = |b - withSign negative r| ∧ (b = a ∨ x.magnitude % 2 = 0)
  infinite : 2 ^ 1024 - 2 ^ 970 ≤ r → x.value = .infinite negative

theorem number?_eq_gridNumber (x : Binary64) : x.number? =
    if x.magnitude < infinityBits then some (withSign x.isNegative (gridNumber x.magnitude)) else none := by
  have hsigned (n : ℕ) (q : ℤ) :
      (signed x.isNegative n : ℚ) * 2 ^ q = withSign x.isNegative (n * 2 ^ q) := by
    cases x.isNegative <;> simp [signed, withSign]
  have hbound : x.magnitude < 2 ^ 63 := Nat.mod_lt _ (by norm_num)
  rw [number?_eq, value, gridNumber]
  by_cases hfinite : x.magnitude < infinityBits
  · have hmax : x.magnitude / 2 ^ 52 ≠ 2047 := by unfold infinityBits at hfinite; omega
    rw [if_pos hfinite, if_neg hmax]
    by_cases hzero : x.magnitude / 2 ^ 52 = 0
    · rw [if_pos hzero, if_pos hzero]
      exact congrArg some (hsigned _ _)
    · rw [if_neg hzero, if_neg hzero]
      exact congrArg some (hsigned _ _)
  · have hmax : x.magnitude / 2 ^ 52 = 2047 := by unfold infinityBits at hfinite; omega
    rw [if_neg hfinite, if_pos hmax]
    by_cases hzero : x.magnitude % 2 ^ 52 = 0
    · rw [if_pos hzero]
    · rw [if_neg hzero]

theorem magnitude_ofMagnitude (negative : Bool) (hk : k ≤ infinityBits) :
    (ofMagnitude negative k).magnitude = k := by
  unfold infinityBits at hk
  cases negative <;> simp [ofMagnitude, magnitude] <;> omega

theorem isNegative_ofMagnitude (negative : Bool) (hk : k ≤ infinityBits) :
    (ofMagnitude negative k).isNegative = negative := by
  unfold infinityBits at hk
  cases negative <;> simp [ofMagnitude, isNegative] <;> omega

theorem value_infinity (negative : Bool) : (infinity negative).value = .infinite negative := by
  have hmagnitude := magnitude_ofMagnitude negative le_rfl
  have hsign := isNegative_ofMagnitude negative le_rfl
  have hdiv : infinityBits / 2 ^ 52 = 2047 := by norm_num [infinityBits]
  have hmod : infinityBits % 2 ^ 52 = 0 := by norm_num [infinityBits]
  rw [value, infinity, hmagnitude, hsign, hdiv, hmod]
  rfl

theorem gridNumber_infinityBits : gridNumber infinityBits = 2 ^ 1024 := by
  have hbits : infinityBits = 2046 * 2 ^ 52 + 2 ^ 52 := rfl
  rw [hbits, gridNumber_eq (by norm_num) (.inl le_rfl), show ((2046 : ℕ) : ℤ) - 1074 = (972 : ℕ) by norm_num,
    zpow_natCast, Nat.cast_pow, Nat.cast_ofNat, ← pow_add]

theorem gridNumber_greatest : gridNumber (infinityBits - 1) = 2 ^ 1024 - 2 * 2 ^ 970 := by
  have hbits : infinityBits - 1 = 2045 * 2 ^ 52 + (2 ^ 53 - 1) := rfl
  have htop : (2 : ℚ) ^ 1024 = 2 ^ 54 * 2 ^ 970 := pow_add 2 54 970
  rw [hbits, gridNumber_eq (by norm_num) (.inl (by norm_num)),
    show ((2045 : ℕ) : ℤ) - 1074 = (970 + 1 : ℕ) by norm_num, zpow_natCast, pow_succ (2 : ℚ) 970, htop]
  generalize (2 : ℚ) ^ 970 = u
  push_cast
  ring

/-- The places below infinity are those nearest to what is less than half a unit behind the greatest number. -/
theorem lt_infinityBits_iff (hk : NearestEven r k) : k < infinityBits ↔ r < 2 ^ 1024 - 2 ^ 970 := by
  have hodd : (infinityBits - 1) % 2 = 1 := by norm_num [infinityBits]
  have hnext : infinityBits - 1 + 1 = infinityBits := rfl
  rw [← hnext, Nat.lt_succ_iff, hk.le_iff_of_odd hodd, hnext, gridNumber_greatest, gridNumber_infinityBits]
  generalize (2 : ℚ) ^ 1024 = t
  generalize (2 : ℚ) ^ 970 = u
  constructor <;> intro h <;> linarith

/-- The nearest place is also nearer than the places of the other sign. -/
theorem NearestEven.beats_signed (hk : NearestEven r k) (hr : 0 ≤ r) (negative other : Bool) (j : ℕ) :
    |withSign negative (gridNumber k) - withSign negative r| <
        |withSign other (gridNumber j) - withSign negative r| ∨
      |withSign negative (gridNumber k) - withSign negative r| =
          |withSign other (gridNumber j) - withSign negative r| ∧
        (withSign other (gridNumber j) = withSign negative (gridNumber k) ∨ k % 2 = 0) := by
  rw [abs_withSign_sub]
  by_cases hother : other = negative
  · subst hother
    rw [abs_withSign_sub]
    rcases hk j with h | ⟨heq, rfl | heven⟩
    · exact .inl h
    · exact .inr ⟨heq, .inl rfl⟩
    · exact .inr ⟨heq, .inr heven⟩
  · obtain rfl : other = !negative := Bool.eq_not_of_ne hother
    have hj := gridNumber_nonneg j
    rw [withSign_sub, abs_of_nonneg (add_nonneg hj hr)]
    have hsum : |gridNumber j - r| ≤ gridNumber j + r := abs_le.2 ⟨by linarith, by linarith⟩
    rcases hsum.lt_or_eq with hlt | heq
    · exact .inl ((hk j).le.trans_lt hlt)
    · rw [← heq]
      rcases hk j with h | ⟨htie, rfl | heven⟩
      · exact .inl h
      · -- zero is no nearer, so the place is that of zero, which needs no sign
        have hnear := (hk 0).le
        rw [heq, gridNumber_zero, zero_sub, abs_neg, abs_of_nonneg hr] at hnear
        have hzero : gridNumber j = 0 := by linarith
        exact .inr ⟨htie, .inl (by simp [hzero, withSign])⟩
      · exact .inr ⟨htie, .inr heven⟩

theorem rounds_of_nearestEven (hr : 0 ≤ r) (hk : NearestEven r k) (negative : Bool) :
    Rounds negative r (ofMagnitude negative (min k infinityBits)) := by
  have hsign := isNegative_ofMagnitude negative (Nat.min_le_right k infinityBits)
  have hmagnitude := magnitude_ofMagnitude negative (Nat.min_le_right k infinityBits)
  have hfinite := lt_infinityBits_iff hk
  refine ⟨hsign, fun hlt => ?_, fun hle => ?_⟩
  · have hlt := hfinite.2 hlt
    rw [Nat.min_eq_left hlt.le] at *
    refine ⟨withSign negative (gridNumber k), ?_, fun y b hy => ?_⟩
    · rw [number?_eq_gridNumber, hmagnitude, hsign, if_pos hlt]
    · rw [number?_eq_gridNumber] at hy
      split at hy
      · cases hy
        rw [hmagnitude]
        exact hk.beats_signed hr negative y.isNegative y.magnitude
      · cases hy
  · have hge := not_lt.1 fun hlt => absurd (hfinite.1 hlt) (not_lt.2 hle)
    rw [Nat.min_eq_right hge]
    exact value_infinity negative

/-! ## Reading decimals -/

theorem rounds_infinity (hr : 2 ^ 1024 ≤ r) (negative : Bool) : Rounds negative r (infinity negative) := by
  have hlimit : (2 : ℚ) ^ 1024 - 2 ^ 970 < 2 ^ 1024 := sub_lt_self _ (by positivity)
  exact ⟨isNegative_ofMagnitude negative le_rfl, fun h => absurd (h.trans hlimit) (not_lt.2 hr),
    fun _ => value_infinity negative⟩

theorem two_pow_le_ten_pow : (2 : ℚ) ^ 1024 ≤ 10 ^ 309 :=
  calc (2 : ℚ) ^ 1024 = 2 * (2 ^ 93) ^ 11 := by rw [← pow_mul, ← pow_succ']
    _ ≤ 10 * (10 ^ 28) ^ 11 := by gcongr <;> norm_num
    _ = 10 ^ 309 := by rw [← pow_mul, ← pow_succ']

theorem decimal_ratio (digits : ℕ) (exponent : ℤ) :
    ((digits * 10 ^ exponent.toNat : ℕ) : ℚ) / (10 ^ (-exponent).toNat : ℕ) = digits * 10 ^ exponent := by
  rcases le_total 0 exponent with h | h
  · lift exponent to ℕ using h
    simp
  · obtain ⟨i, rfl⟩ : ∃ i : ℕ, exponent = -i := ⟨(-exponent).toNat, by omega⟩
    simp [div_eq_mul_inv]

theorem decimal_lt (digits : ℕ) {exponent : ℤ} (htiny : digits.log2 + 3 * exponent < -1075) :
    (digits * 10 ^ exponent : ℚ) < 2 ^ (-1075 : ℤ) := by
  have hdigits : (digits : ℚ) < 2 ^ (digits.log2 + 1) := by exact_mod_cast Nat.lt_log2_self
  obtain ⟨i, rfl⟩ : ∃ i : ℕ, exponent = -i := ⟨(-exponent).toNat, by omega⟩
  have hten : (10 : ℚ) ^ (-i : ℤ) ≤ 2 ^ (-(3 * i : ℕ) : ℤ) := by
    rw [zpow_neg, zpow_neg, zpow_natCast, zpow_natCast, pow_mul]
    gcongr
    norm_num
  calc (digits : ℚ) * 10 ^ (-i : ℤ) ≤ digits * 2 ^ (-(3 * i : ℕ) : ℤ) := by gcongr
    _ < 2 ^ (digits.log2 + 1) * 2 ^ (-(3 * i : ℕ) : ℤ) := by gcongr
    _ = 2 ^ ((digits.log2 : ℤ) + 1 - 3 * i) := by
      rw [← zpow_natCast, ← zpow_add₀ two_ne_zero]
      congr 1
    _ ≤ 2 ^ (-1075 : ℤ) := zpow_le_zpow_right₀ one_le_two (by omega)

theorem two_pow_le_decimal {digits : ℕ} {exponent : ℤ} (hdigits : digits ≠ 0) (hexponent : 308 < exponent) :
    (2 : ℚ) ^ 1024 ≤ digits * 10 ^ exponent :=
  calc (2 : ℚ) ^ 1024 ≤ 10 ^ 309 := two_pow_le_ten_pow
    _ = 1 * 10 ^ (309 : ℤ) := by rw [one_mul]; rfl
    _ ≤ digits * 10 ^ exponent := by
      have : (1 : ℚ) ≤ digits := by exact_mod_cast Nat.one_le_iff_ne_zero.2 hdigits
      gcongr
      · norm_num
      · omega

/-- The shortcut for very small numbers decides what rounding decides. -/
theorem exists_nearestEven_ofDecimal (negative : Bool) {digits : ℕ} {exponent : ℤ}
    (hdecimal : digits = 0 ∨ exponent ≤ 308) :
    ∃ k, NearestEven (digits * 10 ^ exponent) k ∧
      ofDecimal negative digits exponent = ofMagnitude negative (min k infinityBits) := by
  have hpos : (0 : ℚ) ≤ digits * 10 ^ exponent := by positivity
  unfold ofDecimal
  by_cases hdigits : digits = 0
  · refine ⟨0, (nearestEven_tiny_iff hpos ?_).2 rfl, by rw [if_pos hdigits, Nat.zero_min]⟩
    rw [hdigits, Nat.cast_zero, zero_mul]
    positivity
  rw [if_neg hdigits, if_neg (not_lt.2 (hdecimal.resolve_left hdigits))]
  by_cases htiny : digits.log2 + 3 * exponent < -1075
  · exact ⟨0, (nearestEven_tiny_iff hpos (decimal_lt digits htiny)).2 rfl, by rw [if_pos htiny, Nat.zero_min]⟩
  · have hden : 10 ^ (-exponent).toNat ≠ 0 := by positivity
    obtain ⟨k, hk, hround⟩ := nearestEven_roundRatio (digits * 10 ^ exponent.toNat) hden
    rw [decimal_ratio] at hk
    exact ⟨k, hk, by rw [if_neg htiny, ofRatio, hround]⟩

/-- A decimal is read as the number nearest to it. -/
theorem rounds_ofDecimal (negative : Bool) (digits : ℕ) (exponent : ℤ) :
    Rounds negative (digits * 10 ^ exponent) (ofDecimal negative digits exponent) := by
  by_cases hdecimal : digits = 0 ∨ exponent ≤ 308
  · obtain ⟨k, hk, hread⟩ := exists_nearestEven_ofDecimal negative hdecimal
    rw [hread]
    exact rounds_of_nearestEven (by positivity) hk negative
  · rw [not_or, not_le] at hdecimal
    rw [ofDecimal, if_neg hdecimal.1, if_pos hdecimal.2]
    exact rounds_infinity (two_pow_le_decimal hdecimal.1 hdecimal.2) negative

end Embedding.Binary64
