import Embedding.Binary64.Rounding
import Embedding.Text.Digits

/-!
# Numbers, dates and times of a TOML document

A number, a date or a time is a run of characters without white space. The readers here tell which
runs are well formed.
-/

namespace Embedding.Toml

/-- The characters that truth values, numbers, dates and times consist of. -/
def isPlain (c : Char) : Bool :=
  c.isAlphanum || c = '_' || c = '+' || c = '-' || c = '.' || c = ':'

/-- Digits with single underscores between them. -/
def groupedDigits (isDigit : Char → Bool) : List Char → Bool
  | [] => false
  | [c] => isDigit c
  | c :: '_' :: rest => isDigit c && groupedDigits isDigit rest
  | c :: rest => isDigit c && groupedDigits isDigit rest

def dropSign : List Char → List Char
  | '+' :: cs | '-' :: cs => cs
  | cs => cs

/-- A decimal integer without a sign: no zero in front of other digits. -/
def isUnsignedInteger (cs : List Char) : Bool :=
  groupedDigits Digits.isDigit cs && (cs.length = 1 || cs.head? ≠ some '0')

def ungrouped (cs : List Char) : List Char := cs.filter (· ≠ '_')

def isInteger (cs : List Char) : Bool :=
  isUnsignedInteger (dropSign cs)
    && ((Digits.integer? (ungrouped cs)).bind Digits.int64?).isSome

/-- The number that digits of a base write fits into a 64-bit word. -/
def isRadixInteger (base : Nat) (cs : List Char) : Bool :=
  let isDigit (c : Char) : Bool := (Digits.hexDigit? c).any (· < base)
  groupedDigits isDigit cs
    && Positional.ofDigits base ((ungrouped cs).filterMap Digits.hexDigit?) < 2 ^ 63

/-- The parts of a list before and behind the first element that satisfies `p`. -/
def splitAt? (p : Char → Bool) (cs : List Char) : Option (List Char × List Char) :=
  match cs.dropWhile (!p ·) with
  | _ :: rest => some (cs.takeWhile (!p ·), rest)
  | [] => none

/-- The exponent behind its letter. -/
def isExponent (cs : List Char) : Bool := groupedDigits Digits.isDigit (dropSign cs)

/-- A floating-point number with a fraction, an exponent or both. A number beyond the format is none. -/
def isFloat (cs : List Char) : Bool :=
  let (mantissa, exponent) := (splitAt? (fun c => c = 'e' || c = 'E') cs).getD (cs, ['0'])
  let (whole, fraction) := (splitAt? (· = '.') mantissa).getD (mantissa, ['0'])
  (mantissa ≠ cs || whole ≠ mantissa)
    && isUnsignedInteger (dropSign whole) && groupedDigits Digits.isDigit fraction
    && isExponent exponent && !overflows whole (ungrouped fraction) (ungrouped exponent)
where
  overflows (whole fraction exponent : List Char) : Bool :=
    let digits := Digits.decimal (ungrouped (dropSign whole) ++ fraction)
    whole.head? ≠ some '-'
      && Binary64.ofDecimal false digits (Digits.signedExponent exponent - fraction.length)
          = .infinity false

def isNumber (cs : List Char) : Bool :=
  match cs with
  | '0' :: 'x' :: digits => isRadixInteger 16 digits
  | '0' :: 'o' :: digits => isRadixInteger 8 digits
  | '0' :: 'b' :: digits => isRadixInteger 2 digits
  | _ =>
    isInteger cs || isFloat cs || dropSign cs = ['i', 'n', 'f'] || dropSign cs = ['n', 'a', 'n']

/-! ## Dates and times -/

/-- A number of two digits from `low` to `high`. -/
def isTwoDigits (low high : Nat) (d₁ d₂ : Char) : Bool :=
  Digits.isDigit d₁ && Digits.isDigit d₂
    && low ≤ Digits.decimal [d₁, d₂] && Digits.decimal [d₁, d₂] ≤ high

def daysInMonth (year month : Nat) : Nat :=
  if month = 2 then
    if year % 4 = 0 && (year % 100 ≠ 0 || year % 400 = 0) then 29 else 28
  else if month = 4 || month = 6 || month = 9 || month = 11 then 30
  else 31

/-- A date, and what stands behind it. -/
def takeDate : List Char → Option (List Char)
  | y₁ :: y₂ :: y₃ :: y₄ :: '-' :: m₁ :: m₂ :: '-' :: d₁ :: d₂ :: rest =>
    let year := Digits.decimal [y₁, y₂, y₃, y₄]
    let month := Digits.decimal [m₁, m₂]
    if [y₁, y₂, y₃, y₄].all Digits.isDigit && isTwoDigits 1 12 m₁ m₂
        && isTwoDigits 1 (daysInMonth year month) d₁ d₂ then
      some rest
    else none
  | _ => none

/-- A time of day, and what stands behind it. -/
def takeTime : List Char → Option (List Char)
  | h₁ :: h₂ :: ':' :: m₁ :: m₂ :: ':' :: s₁ :: s₂ :: rest =>
    if isTwoDigits 0 23 h₁ h₂ && isTwoDigits 0 59 m₁ m₂ && isTwoDigits 0 60 s₁ s₂ then
      match rest with
      | '.' :: fraction =>
        if fraction.head?.any Digits.isDigit then some (fraction.dropWhile Digits.isDigit) else none
      | _ => some rest
    else none
  | _ => none

/-- The distance from universal time, or nothing for a local time. -/
def isOffset : List Char → Bool
  | [] | ['Z'] | ['z'] => true
  | [sign, h₁, h₂, ':', m₁, m₂] =>
    (sign = '+' || sign = '-') && isTwoDigits 0 23 h₁ h₂ && isTwoDigits 0 59 m₁ m₂
  | _ => false

def isLocalTime (cs : List Char) : Bool := takeTime cs = some []

def isTime (cs : List Char) : Bool := (takeTime cs).any isOffset

/-- A date, a date with a time behind a `T`, or a time. -/
def isDate (cs : List Char) : Bool :=
  isLocalTime cs ||
    match takeDate cs with
    | some [] => true
    | some (c :: rest) => (c = 'T' || c = 't') && isTime rest
    | none => false

/-- The characters behind a number, a date or a time. A space may stand between date and time. -/
def takePlain (cs : List Char) : Option (List Char) :=
  let run := cs.takeWhile isPlain
  let rest := cs.dropWhile isPlain
  if takeDate run = some [] then
    match rest with
    | ' ' :: behind =>
      if isTime (behind.takeWhile isPlain) then some (behind.dropWhile isPlain) else some rest
    | _ => some rest
  else if isNumber run || isDate run then some rest
  else none

end Embedding.Toml
