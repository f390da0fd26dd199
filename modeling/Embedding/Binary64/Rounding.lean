import Embedding.Binary64.Basic

/-!
# Rounding to the nearest number

Every conversion to the format rounds one exact quotient of natural numbers to the nearest number,
a tie going to the even neighbour.
-/

namespace Embedding.Binary64

def roundHalfEven (num den : Nat) : Nat :=
  let n := num / den
  let r := num % den
  if 2 * r < den || (2 * r = den && n % 2 = 0) then n else n + 1

/-- Numerator and denominator of `num / den / 2 ^ q`. -/
def scale (num den : Nat) (q : Int) : Nat × Nat :=
  (num * 2 ^ (-q).toNat, den * 2 ^ q.toNat)

/-- The exponent of the power of two in the number nearest to `num / den`. -/
def exponentFor (num den : Nat) : Int :=
  let q := max ((num.log2 : Int) - den.log2 - 53) minExponent
  let (a, b) := scale num den q
  if 2 ^ 53 ≤ a / b then q + 1 else q

/-- The magnitude bits of the number nearest to `num / den`. -/
def roundRatio (num den : Nat) : Nat :=
  if num = 0 then 0
  else
    let q := exponentFor num den
    let (a, b) := scale num den q
    min ((q - minExponent).toNat * 2 ^ 52 + roundHalfEven a b) infinityBits

def ofRatio (negative : Bool) (num den : Nat) : Binary64 :=
  ofMagnitude negative (roundRatio num den)

def ofInt (n : Int) : Binary64 := ofRatio (n < 0) n.natAbs 1

/-- The number nearest to `digits * 10 ^ exponent`. A positive exponent beyond the format makes any
digits but zeros infinite, and less than half of the least positive number is zero, so powers of ten
that decide nothing are not computed. -/
def ofDecimal (negative : Bool) (digits : Nat) (exponent : Int) : Binary64 :=
  if digits = 0 then ofMagnitude negative 0
  else if 308 < exponent then infinity negative
  else if digits.log2 + 3 * exponent < -1075 then ofMagnitude negative 0
  else ofRatio negative (digits * 10 ^ exponent.toNat) (10 ^ (-exponent).toNat)

def divide (x y : Binary64) : Binary64 :=
  let negative := x.isNegative != y.isNegative
  match x.value, y.value with
  | .nan, _ | _, .nan => nan
  | .infinite _, .infinite _ => nan
  | .infinite _, .finite .. => infinity negative
  | .finite .., .infinite _ => ofMagnitude negative 0
  | .finite _ m q, .finite _ n r =>
    if n = 0 then if m = 0 then nan else infinity negative
    else
      let (a, b) := scale m n (r - q)
      ofRatio negative a b

/-- The same number in the wider format, from the bits of the 32-bit one. -/
def ofBinary32 (bits : UInt32) : Binary64 :=
  let negative : Bool := 2 ^ 31 ≤ bits.toNat
  let biased : Nat := bits.toNat / 2 ^ 23 % 2 ^ 8
  let fraction : Nat := bits.toNat % 2 ^ 23
  if biased = 255 then if fraction = 0 then infinity negative else nan
  else
    let m := if biased = 0 then fraction else 2 ^ 23 + fraction
    let (a, b) := scale m 1 (149 - max 1 biased + 1)
    ofRatio negative a b

end Embedding.Binary64
