/-!
# Binary floating-point numbers

A number of the 64-bit binary format is kept as its bits. Its value is read off exactly, as an
integer times a power of two, and every operation below is exact arithmetic on such values.
-/

-- Powers mean the same wherever this library is used.
attribute [instance (high), default_instance (high)] instPowNat

namespace Embedding

/-- A number of the 64-bit binary format, as its bits. -/
structure Binary64 where
  bits : UInt64
  deriving DecidableEq, Inhabited

namespace Binary64

/-- What the bits stand for. -/
inductive Value
  | nan
  | infinite (negative : Bool)
  /-- The number `m * 2 ^ q`, negated if `negative`. -/
  | finite (negative : Bool) (m : Nat) (q : Int)
  deriving DecidableEq

/-- The least exponent of a value's power of two. -/
def minExponent : Int := -1074

/-- The magnitude bits of infinity: all magnitudes above it are not numbers. -/
def infinityBits : Nat := 2047 * 2 ^ 52

def isNegative (x : Binary64) : Bool := 2 ^ 63 ≤ x.bits.toNat

def magnitude (x : Binary64) : Nat := x.bits.toNat % 2 ^ 63

def value (x : Binary64) : Value :=
  let biased : Nat := x.magnitude / 2 ^ 52
  let fraction : Nat := x.magnitude % 2 ^ 52
  if biased = 2047 then
    if fraction = 0 then .infinite x.isNegative else .nan
  else if biased = 0 then .finite x.isNegative fraction minExponent
  else .finite x.isNegative (2 ^ 52 + fraction) (biased - 1075)

def ofMagnitude (negative : Bool) (magnitude : Nat) : Binary64 :=
  ⟨UInt64.ofNat (magnitude + if negative then 2 ^ 63 else 0)⟩

def zero : Binary64 := ⟨0⟩

def nan : Binary64 := ofMagnitude false (infinityBits + 2 ^ 51)

def infinity (negative : Bool) : Binary64 := ofMagnitude negative infinityBits

def isNaN (x : Binary64) : Bool := infinityBits < x.magnitude

def isFinite (x : Binary64) : Bool := x.magnitude < infinityBits

def isZero (x : Binary64) : Bool := x.magnitude = 0

/-- Equality as numbers: the zeros are equal, and a NaN equals nothing. -/
def numEq (x y : Binary64) : Bool :=
  !x.isNaN && !y.isNaN && (x = y || (x.isZero && y.isZero))

def truncateValue (m : Nat) (q : Int) : Nat :=
  if 0 ≤ q then m * 2 ^ q.toNat else m / 2 ^ (-q).toNat

def valueIsIntegral (m : Nat) (q : Int) : Bool :=
  0 ≤ q || m % 2 ^ (-q).toNat = 0

def isIntegral (x : Binary64) : Bool :=
  match x.value with
  | .finite _ m q => valueIsIntegral m q
  | _ => false

def clampInt64 (n : Int) : Int64 :=
  Int64.ofInt (max (-2 ^ 63) (min n (2 ^ 63 - 1)))

/-- The word nearest to the number without its fractional part, 0 for a NaN. -/
def toInt64 (x : Binary64) : Int64 :=
  match x.value with
  | .nan => 0
  | .infinite negative => clampInt64 (if negative then -2 ^ 63 else 2 ^ 63)
  | .finite negative m q =>
    let n : Int := truncateValue m q
    clampInt64 (if negative then -n else n)

end Binary64

end Embedding
