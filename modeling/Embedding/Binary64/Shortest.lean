import Embedding.Binary64.Rounding
import Embedding.Text.Digits

/-!
# The shortest decimal text of a number

A number is written with the fewest decimal digits that read back as it, and of the decimals with
that many digits with the nearest.
-/

namespace Embedding.Binary64

/-- The decimals that read back as `m * 2 ^ q`, in units of `2 ^ (q - 2)`: from `low` to `high`,
the ends included iff `closed`. -/
structure Interval where
  low : Nat
  middle : Nat
  high : Nat
  closed : Bool

/-- Half way to each neighbour; below a power of two the neighbour is only half as far. -/
def interval (m : Nat) (q : Int) : Interval where
  low := 4 * m - if m = 2 ^ 52 && minExponent < q then 1 else 2
  middle := 4 * m
  high := 4 * m + 2
  closed := m % 2 = 0

/-- The multiple of `10 ^ k` nearest to the number among those that read back as it, divided by
`10 ^ k`. -/
def candidate? (m : Nat) (q : Int) (k : Int) : Option Nat :=
  let i := interval m q
  -- one unit and one step of the grid over a common denominator
  let unit := 10 ^ (-k).toNat * 2 ^ (q - 2).toNat
  let step := 10 ^ k.toNat * 2 ^ (2 - q).toNat
  let fits (d : Nat) : Bool :=
    if i.closed then i.low * unit ≤ d * step && d * step ≤ i.high * unit
    else i.low * unit < d * step && d * step < i.high * unit
  let below := i.middle * unit / step
  let above := below + 1
  if fits below && fits above then
    if i.middle * unit - below * step < above * step - i.middle * unit then some below else some above
  else if fits below then some below
  else if fits above then some above
  else none

/-- A power of ten that `m * 2 ^ q` does not exceed, at most one step above the least. -/
def decimalBound (m : Nat) (q : Int) : Int :=
  let (num, den) := scale m 1 (-q)
  if den ≤ num then Digits.length (num / den) else 1 - Digits.length (den / num)

def stripZeros (digits : List Char) : List Char × Nat :=
  let kept := (digits.reverse.dropWhile (· == '0')).reverse
  (kept, digits.length - kept.length)

/-- The digits and the exponent of ten of the shortest decimal that reads back as `m * 2 ^ q`, for a
positive `m`. Seventeen digits are always enough. -/
def shortest (m : Nat) (q : Int) : List Char × Int :=
  let bound := decimalBound m q
  let found := (List.range 18).findSome? fun (n : Nat) =>
    (candidate? m q (bound - 1 - n)).map fun d => (d, bound - 1 - (n : Int))
  let (d, k) := found.getD (m, q)
  let (digits, zeros) := stripZeros (Nat.toDigits 10 d)
  (digits, k + zeros)

structure Style where
  nan : String
  infinity : String
  /-- What follows an integral number without an exponent. -/
  integralSuffix : String
  /-- Whether a number whose first digit stands for `10 ^ e` is written with an exponent. -/
  scientific : (e : Int) → Bool

/-- Digits times a power of ten, with a point where needed and no exponent. -/
def writePositional (style : Style) (digits : List Char) (exponent : Int) : List Char :=
  if 0 ≤ exponent then
    digits ++ List.replicate exponent.toNat '0' ++ style.integralSuffix.toList
  else
    let places := (-exponent).toNat
    if places < digits.length then
      digits.take (digits.length - places) ++ '.' :: digits.drop (digits.length - places)
    else
      '0' :: '.' :: (List.replicate (places - digits.length) '0' ++ digits)

/-- One digit, a point and the rest, and the exponent of ten of the first digit. -/
def writeScientific (digits : List Char) (first : Int) : List Char :=
  digits.take 1 ++ (if digits.length ≤ 1 then [] else '.' :: digits.drop 1)
    ++ 'e' :: (toString first).toList

def write (style : Style) (x : Binary64) : String :=
  let signed (negative : Bool) (cs : List Char) : String :=
    String.ofList (if negative then '-' :: cs else cs)
  match x.value with
  | .nan => style.nan
  | .infinite negative => signed negative style.infinity.toList
  | .finite negative m q =>
    if m = 0 then signed negative ('0' :: style.integralSuffix.toList)
    else
      let (digits, exponent) := shortest m q
      let first := exponent + digits.length - 1
      signed negative <|
        if style.scientific first then writeScientific digits first
        else writePositional style digits exponent

/-- Plain numbers: never an exponent, and no point in an integral number. -/
def plainStyle : Style := ⟨"NaN", "inf", "", fun _ => false⟩

/-- Numbers in a listing always show that they are no integers, and very large and very small ones
have an exponent. -/
def listingStyle : Style := ⟨"NaN", "inf", ".0", fun e => e < -4 || 16 ≤ e⟩

end Embedding.Binary64
