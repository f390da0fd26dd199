import Embedding.Text.Positional

/-!
# Digits

Decimal and hexadecimal numerals as lists of characters, and the exponents of decimal numbers.
-/

-- Powers mean the same wherever this library is used.
attribute [instance (high), default_instance (high)] instPowNat

namespace Embedding.Digits

def isDigit (c : Char) : Bool := '0' ≤ c && c ≤ '9'

def digitValue (c : Char) : Nat := c.toNat - '0'.toNat

def decimal (cs : List Char) : Nat := Positional.ofDigits 10 (cs.map digitValue)

theorem decimal_eq_foldl (cs : List Char) :
    decimal cs = cs.foldl (fun n c => 10 * n + digitValue c) 0 := by
  rw [decimal, Positional.ofDigits_eq_foldl, List.foldl_map]

/-- From this number on an exponent takes no further digits: unless tens of thousands of digits stand
before it, the number is zero or infinite by then. -/
def exponentLimit : Nat := 2 ^ 16

/-- The exponent that decimal digits write. Digits behind one that reaches the limit do not count. -/
def exponent (cs : List Char) : Nat :=
  cs.foldl (fun n c => if n < exponentLimit then 10 * n + digitValue c else n) 0

theorem exponent_eq_decimal_or (cs : List Char) :
    exponent cs = decimal cs ∨ exponentLimit ≤ exponent cs := by
  rw [decimal_eq_foldl, exponent]
  generalize 0 = n
  induction cs generalizing n with
  | nil => exact .inl rfl
  | cons c cs ih =>
    simp only [List.foldl_cons]
    by_cases h : n < exponentLimit
    · rw [if_pos h]
      exact ih _
    · rw [if_neg h]
      refine .inr ?_
      have stays (cs : List Char) :
          cs.foldl (fun n c => if n < exponentLimit then 10 * n + digitValue c else n) n = n := by
        induction cs with
        | nil => rfl
        | cons c cs ih => rw [List.foldl_cons, if_neg h, ih]
      rw [stays]
      exact Nat.le_of_not_lt h

def hexDigit? (c : Char) : Option Nat :=
  if isDigit c then some (digitValue c)
  else if 'a' ≤ c && c ≤ 'f' then some (c.toNat - 'a'.toNat + 10)
  else if 'A' ≤ c && c ≤ 'F' then some (c.toNat - 'A'.toNat + 10)
  else none

/-- The number that hexadecimal digits write, `none` if one of them is none. -/
def hexadecimal? (cs : List Char) : Option Nat :=
  cs.foldl (fun n? c => do return 16 * (← n?) + (← hexDigit? c)) (some 0)

def hex (n : Nat) : String := String.ofList (Nat.toDigits 16 n)

def length (n : Nat) : Nat := (Nat.toDigits 10 n).length

def natural? (cs : List Char) : Option Nat :=
  if cs ≠ [] && cs.all isDigit then some (decimal cs) else none

theorem natural?_toDigits (n : Nat) : natural? (Nat.toDigits 10 n) = some n := by
  have hdigit : ∀ c ∈ Nat.toDigits 10 n, isDigit c = true := fun c hc =>
    Nat.isDigit_of_mem_toDigits (by decide) (Nat.le_refl 10) hc
  have hvalue : decimal (Nat.toDigits 10 n) = n := by
    rw [decimal_eq_foldl]
    exact Nat.ofDigitChars_toDigits (by decide) (Nat.le_refl 10)
  rw [natural?, hvalue, if_pos]
  rw [List.all_eq_true.2 hdigit, Bool.and_true]
  exact decide_eq_true Nat.toDigits_ne_nil

def integer? : List Char → Option Int
  | '+' :: cs => (natural? cs).map Int.ofNat
  | '-' :: cs => (natural? cs).map fun n => -Int.ofNat n
  | cs => (natural? cs).map Int.ofNat

/-- The exponent that decimal digits write behind a sign or without one. -/
def signedExponent : List Char → Int
  | '+' :: cs => exponent cs
  | '-' :: cs => -exponent cs
  | cs => exponent cs

def int64? (n : Int) : Option Int64 :=
  if -2 ^ 63 ≤ n ∧ n < 2 ^ 63 then some (Int64.ofInt n) else none

/-- A size is a number below 2^64; its numeral may start with a plus sign. -/
def size? (cs : List Char) : Option Nat := do
  let n ← natural? (match cs with | '+' :: rest => rest | _ => cs)
  if n < 2 ^ 64 then some n else none

theorem size?_toString {n : Nat} (hn : n < 2 ^ 64) : size? (toString n).toList = some n := by
  have hnumeral : (toString n).toList = Nat.toDigits 10 n := by simp
  rw [hnumeral]
  unfold size?
  split
  · next rest hplus =>
    have hmem : '+' ∈ Nat.toDigits 10 n := hplus ▸ List.mem_cons_self
    cases Nat.isDigit_of_mem_toDigits (by decide) (Nat.le_refl 10) hmem
  · rw [natural?_toDigits]
    exact if_pos hn

end Embedding.Digits
