import Embedding.Proofs.Numerals.Rounding
import Embedding.Proofs.Numerals.Scan

/-!
# The longest numeral

A text counts as the number that the longest numeral at its front writes. The scan for it can go past what is
a numeral, and what it has passed over is read as a whole. The main statement is that it ends between two
characters and that the number is the one nearest to what the longest numeral denotes, or zero if there is no
numeral.
-/

namespace Embedding

open Binary64 (signed)

namespace Digits

theorem decimal_eq_ofDigits (cs : List Char) : decimal cs = Nat.ofDigits 10 (cs.map digitValue).reverse := by
  rw [decimal, Positional.ofDigits_eq_foldl, Nat.ofDigits_eq_foldr, List.foldr_reverse]
  simp only [Nat.cast_id, Nat.add_comm]

theorem decimal_append (cs ds : List Char) :
    decimal (cs ++ ds) = decimal cs * 10 ^ ds.length + decimal ds := by
  simp only [decimal_eq_ofDigits, List.map_append, List.reverse_append, Nat.ofDigits_append, List.length_reverse,
    List.length_map]
  ring

theorem decimal_lt {ds : List Char} (hds : Numeral.AllDigits ds) : decimal ds < 10 ^ ds.length := by
  have hvalue : ∀ n ∈ (ds.map digitValue).reverse, n < 10 := by
    intro n hn
    rw [List.mem_reverse, List.mem_map] at hn
    obtain ⟨c, hc, rfl⟩ := hn
    exact (Nat.sub_le_sub_right (Numeral.isDigit_le (hds c hc)) _).trans_lt (by decide)
  have hlt := Nat.ofDigits_lt_base_pow_length (by norm_num) hvalue
  rwa [← decimal_eq_ofDigits, List.length_reverse, List.length_map] at hlt

theorem exponent_le_decimal (cs : List Char) : exponent cs ≤ decimal cs := by
  have hgrows (m n : ℕ) (hmn : m ≤ n) (cs : List Char) :
      cs.foldl (fun n c => if n < exponentLimit then 10 * n + digitValue c else n) m ≤
        cs.foldl (fun n c => 10 * n + digitValue c) n := by
    induction cs generalizing m n with
    | nil => exact hmn
    | cons c cs ih =>
      apply ih
      dsimp only
      split <;> omega
  rw [decimal_eq_foldl]
  exact hgrows 0 0 le_rfl cs

end Digits

namespace Numeral

variable {cs p ds : List Char} {d : Decimal}

/-! ## What a numeral denotes -/

/-- The number that a numeral denotes, without its sign. -/
def Decimal.size (d : Decimal) : ℚ :=
  (Digits.decimal d.whole + Digits.decimal d.fraction / 10 ^ d.fraction.length) *
    10 ^ signed d.negativeExponent (Digits.decimal d.exponent)

theorem Decimal.size_eq (d : Decimal) : d.size =
    Digits.decimal (d.whole ++ d.fraction) *
      10 ^ (signed d.negativeExponent (Digits.decimal d.exponent) - d.fraction.length) := by
  rw [size, Digits.decimal_append, zpow_sub₀ (by norm_num), zpow_natCast]
  push_cast
  field_simp

/-- Digits that a small exponent moves far behind the point are almost zero. -/
theorem decimal_tiny (hds : AllDigits ds) {e : ℤ} (he : ds.length + e ≤ -400) :
    (Digits.decimal ds * 10 ^ e : ℚ) < 2 ^ (-1075 : ℤ) := by
  have hten : ((1 : ℕ) * 10 ^ (ds.length + e) : ℚ) < 2 ^ (-1075 : ℤ) :=
    Binary64.decimal_lt 1 (by rw [show Nat.log2 1 = 0 from rfl]; push_cast; omega)
  calc (Digits.decimal ds * 10 ^ e : ℚ) ≤ 10 ^ ds.length * 10 ^ e := by
        gcongr
        exact_mod_cast (Digits.decimal_lt hds).le
    _ = (1 : ℕ) * 10 ^ (ds.length + e) := by
      rw [Nat.cast_one, one_mul, zpow_add₀ (by norm_num), zpow_natCast]
    _ < 2 ^ (-1075 : ℤ) := hten

theorem rounds_of_tiny {digits : ℕ} {read exact : ℤ} (hread : digits = 0 ∨ read ≤ 308)
    (hreadTiny : (digits * 10 ^ read : ℚ) < 2 ^ (-1075 : ℤ))
    (hexactTiny : (digits * 10 ^ exact : ℚ) < 2 ^ (-1075 : ℤ)) (negative : Bool) :
    Binary64.Rounds negative (digits * 10 ^ exact) (.ofDecimal negative digits read) := by
  obtain ⟨k, hk, hvalue⟩ := Binary64.exists_nearestEven_ofDecimal negative hread
  obtain rfl := (Binary64.nearestEven_tiny_iff (by positivity) hreadTiny).1 hk
  rw [hvalue]
  exact Binary64.rounds_of_nearestEven (by positivity)
    ((Binary64.nearestEven_tiny_iff (by positivity) hexactTiny).2 rfl) negative

/-- With so few digits the reader does not give up on an exponent before the number is zero or infinite. -/
theorem Writes.rounds (hd : Writes cs d) (hshort : d.whole.length + d.fraction.length ≤ 65000) :
    Binary64.Rounds d.negative d.size d.read := by
  obtain ⟨negative, w, f, negativeExponent, ds⟩ := d
  obtain ⟨s, m, x, rfl, hs, hm, hx⟩ := hd
  rw [Decimal.size_eq, Decimal.read]
  dsimp only at *
  rcases Digits.exponent_eq_decimal_or ds with heq | hlimit
  · rw [heq]
    exact Binary64.rounds_ofDecimal ..
  -- the exponent that was read has reached the limit, and the one that is written is no less
  have hlimit : 65536 ≤ Digits.exponent ds := hlimit
  have hexact := Digits.exponent_le_decimal ds
  have hall := hm.allDigits
  have hlength : (w ++ f).length ≤ 65000 := by rwa [List.length_append]
  have hfraction : f.length ≤ 65000 := by omega
  cases negativeExponent with
  | true =>
    have hminus (n : ℕ) : signed true n = -n := rfl
    rw [hminus, hminus]
    exact rounds_of_tiny (.inr (by omega)) (decimal_tiny hall (by omega)) (decimal_tiny hall (by omega)) negative
  | false =>
    have hplus (n : ℕ) : signed false n = n := rfl
    rw [hplus, hplus]
    by_cases hzero : Digits.decimal (w ++ f) = 0
    · have htiny (e : ℤ) : (Digits.decimal (w ++ f) * 10 ^ e : ℚ) < 2 ^ (-1075 : ℤ) := by
        rw [hzero, Nat.cast_zero, zero_mul]
        positivity
      exact rounds_of_tiny (.inl hzero) (htiny _) (htiny _) negative
    · have hread : (308 : ℤ) < Digits.exponent ds - f.length := by omega
      have hexact : (308 : ℤ) < Digits.decimal ds - f.length := by omega
      rw [Binary64.ofDecimal, if_neg hzero, if_pos hread]
      exact Binary64.rounds_infinity (Binary64.two_pow_le_decimal hzero hexact) negative

/-! ## The longest numeral -/

/-- The longest of the numerals that a text begins with, and what it consists of. -/
structure Longest (text p : List Char) (d : Decimal) : Prop where
  front : p <+: text
  writes : Writes p d
  longest : ∀ q e, q <+: text → Writes q e → q.length ≤ p.length

theorem hasDigit_of_front {text : List Char} (hp : p <+: text) (hd : Writes p d) : HasDigit text := by
  obtain ⟨v, rfl⟩ := hp
  exact (hd.passed v).1

theorem longest_of_passed {text : List Char} (htext : text = p ++ afterNumber text) (hd : Writes p d) :
    Longest text p d := by
  refine ⟨⟨_, htext.symm⟩, hd, ?_⟩
  rintro q e ⟨v, hv⟩ hq
  have hrest := (hq.passed v).2.length_le
  have hlength := congrArg List.length htext
  have hlengthOther := congrArg List.length hv
  rw [hv] at hrest
  rw [List.length_append] at hlength hlengthOther
  omega

theorem isValid_scan {text : List Char} (htext : text = p ++ afterNumber text) :
    (String.Pos.Raw.mk (scan (Utf8.encode (String.ofList text)))).IsValid (String.ofList text) := by
  refine String.Pos.Raw.isValid_iff_exists_append.2
    ⟨String.ofList p, String.ofList (afterNumber text), ?_, ?_⟩
  · rw [← String.ofList_append, ← htext]
  · rw [scan_encode htext]
    rfl

/-- The texts that are read as numbers are the numerals. Of any text the scan passes over some characters,
and the text counts as the number that its longest numeral is read as. That is the one nearest to what the
numeral denotes, except perhaps if an exponent of more than `Digits.exponentLimit` makes up for tens of
thousands of digits. A text that begins with no numeral counts as zero. -/
theorem value_of_longest (text : List Char) :
    (∀ cs, (read? cs).isSome ↔ ∃ d, Writes cs d) ∧
      (String.Pos.Raw.mk (scan (Utf8.encode (String.ofList text)))).IsValid (String.ofList text) ∧
      ((∃ p d, Longest text p d ∧
          scan (Utf8.encode (String.ofList text)) = (Utf8.encode (String.ofList p)).length ∧
          read? p = some (value text) ∧
          (d.whole.length + d.fraction.length ≤ 65000 →
            Binary64.Rounds d.negative d.size (value text))) ∨
        (∀ p d, p <+: text → ¬ Writes p d) ∧ value text = .zero) := by
  refine ⟨fun _ => read?_isSome_iff, ?_⟩
  by_cases hdigit : HasDigit text
  · obtain ⟨p, d, htext, hd⟩ := exists_numeral hdigit
    have hread := read?_of_writes hd
    have hvalue : value text = d.read := by rw [value_eq htext, hread, Option.getD_some]
    refine ⟨isValid_scan htext, .inl ⟨p, d, longest_of_passed htext hd, scan_encode htext, ?_, ?_⟩⟩
    · rw [hread, hvalue]
    · rw [hvalue]
      exact hd.rounds
  · obtain ⟨p, htext⟩ := afterNumber_suffix text
    have hnone : ∀ q d, q <+: text → ¬ Writes q d := fun q d hq hd => hdigit (hasDigit_of_front hq hd)
    refine ⟨isValid_scan htext.symm, .inr ⟨hnone, ?_⟩⟩
    -- what the scan has passed over, such as a point in front of an exponent, is not read either
    rw [value_eq htext.symm]
    cases hread : read? p with
    | none => rfl
    | some x =>
      obtain ⟨d, hd⟩ := exists_writes (Option.isSome_of_eq_some hread)
      exact absurd hd (hnone p d ⟨_, htext⟩)

/-- The scan goes past the point and the exponent, although they are no numeral. -/
example : scan (Utf8.encode ".e5x") = 3 ∧ value ".e5x".toList = .zero := by decide +kernel

end Numeral

end Embedding
