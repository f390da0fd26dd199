import Embedding.Text.Blank
import Embedding.Text.Digits
import Embedding.Text.Utf8
import Embedding.Binary64.Rounding

/-!
# Numbers at the front of a text

A text counts as the number that its longest numeric prefix writes: a sign, digits with at most one
point among them, and an exponent. A text without such a prefix counts as zero.

A scan over the bytes of the text says where to cut it. The part in front of the cut is then read as a
whole, and is zero if it turns out to be no number.
-/

namespace Embedding.Numeral

/-! ## Parts of a number -/

/-- Whether there is a minus in front, and what follows an optional sign. -/
def takeSign : List Char → Bool × List Char
  | '+' :: cs => (false, cs)
  | '-' :: cs => (true, cs)
  | cs => (false, cs)

def takeDigits (cs : List Char) : List Char × List Char :=
  (cs.takeWhile Digits.isDigit, cs.dropWhile Digits.isDigit)

/-- The digits behind an optional point, and what follows them. -/
def takeFraction : List Char → List Char × List Char
  | '.' :: cs => takeDigits cs
  | cs => ([], cs)

def isExponentLetter (c : Char) : Bool := c = 'e' || c = 'E'

/-! ## Reading -/

/-- The exponent that stands at the end of a number, none being 0. -/
def exponent? : List Char → Option Int
  | [] => some 0
  | e :: cs =>
    let (negative, digits) := takeSign cs
    if isExponentLetter e && digits ≠ [] && digits.all Digits.isDigit then
      let n : Int := Digits.exponent digits
      some (if negative then -n else n)
    else none

/-- The number that a text of digits, signs, points and exponent letters writes, if it writes one. There
has to be a digit in front of the point or behind it. -/
def read? (text : List Char) : Option Binary64 :=
  let (negative, cs) := takeSign text
  let (whole, cs) := takeDigits cs
  let (fraction, cs) := takeFraction cs
  if whole = [] && fraction = [] then none
  else (exponent? cs).map fun n =>
    .ofDecimal negative (Digits.decimal (whole ++ fraction)) (n - fraction.length)

/-! ## Scanning -/

/-- What follows an exponent in front. One without digits does not count. -/
def afterExponent : List Char → List Char
  | [] => []
  | e :: cs =>
    let digits := (takeSign cs).2
    let rest := (takeDigits digits).2
    if isExponentLetter e && rest.length < digits.length then rest else e :: cs

/-- What follows the part that looks like a number. An exponent is looked for only behind a digit or a
point. -/
def afterNumber (cs : List Char) : List Char :=
  let digits := (takeSign cs).2
  let rest := (takeFraction (takeDigits digits).2).2
  if rest.length = digits.length then rest else afterExponent rest

/-- The index at which the scan of a byte string ends. Each byte counts as the character with its number, and
only characters below 128 are looked for. -/
def scan (bytes : List UInt8) : Nat :=
  bytes.length - (afterNumber (bytes.map Char.ofUInt8)).length

def value (text : List Char) : Binary64 :=
  let bytes := Utf8.encode (String.ofList text)
  let number? := (Utf8.decode (bytes.take (scan bytes))).toOption.bind fun s => read? s.toList
  number?.getD .zero

/-- The word that a text without white space around it writes in full, if it writes one. -/
def int64? (text : List Char) : Option Int64 :=
  (Digits.integer? text).bind Digits.int64?

end Embedding.Numeral
