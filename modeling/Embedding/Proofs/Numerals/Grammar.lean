import Embedding.Proofs.IntegerExtraction
import Embedding.Text.Numeral

/-!
# Numerals

A numeral is a decimal number as it is written: an optional sign, digits in front of a point, behind it or
both, and an optional exponent. The main statement is that exactly the numerals are read as numbers.
-/

namespace Embedding.Numeral

open Binary64 (signed)

/-! ## The grammar -/

/-- The form `digit*`. -/
def AllDigits (cs : List Char) : Prop := ∀ c ∈ cs, Digits.isDigit c = true

/-- The form `digit+`. -/
structure SomeDigits (cs : List Char) : Prop where
  all : AllDigits cs
  ne_nil : cs ≠ []

/-- The form `sign?`, and whether it is a minus. -/
inductive Sign : List Char → Bool → Prop
  | absent : Sign [] false
  | plus : Sign ['+'] false
  | minus : Sign ['-'] true

/-- The form `digit+ ('.' digit*)? | '.' digit+`, with the digits in front of the point and those behind it. -/
inductive Mantissa : List Char → List Char → List Char → Prop
  | whole {ds : List Char} : SomeDigits ds → Mantissa ds ds []
  | point {ds fs : List Char} : SomeDigits ds → AllDigits fs → Mantissa (ds ++ '.' :: fs) ds fs
  | fraction {fs : List Char} : SomeDigits fs → Mantissa ('.' :: fs) [] fs

/-- The form `([eE] sign? digit+)?`, with the sign and the digits. -/
inductive Exponent : List Char → Bool → List Char → Prop
  | absent : Exponent [] false []
  | present {e : Char} {s ds : List Char} {negative : Bool} :
      e = 'e' ∨ e = 'E' → Sign s negative → SomeDigits ds → Exponent (e :: (s ++ ds)) negative ds

/-- What a numeral consists of. -/
structure Decimal where
  negative : Bool
  whole : List Char
  fraction : List Char
  negativeExponent : Bool
  exponent : List Char

/-- The numerals: `sign? (digit+ ('.' digit*)? | '.' digit+) ([eE] sign? digit+)?`. -/
def Writes (cs : List Char) (d : Decimal) : Prop :=
  ∃ s m x, cs = s ++ (m ++ x) ∧ Sign s d.negative ∧ Mantissa m d.whole d.fraction ∧
    Exponent x d.negativeExponent d.exponent

def Decimal.read (d : Decimal) : Binary64 :=
  .ofDecimal d.negative (Digits.decimal (d.whole ++ d.fraction))
    (signed d.negativeExponent (Digits.exponent d.exponent) - d.fraction.length)

/-! ## Parts of a numeral -/

variable {cs s m x v w f ds : List Char} {negative : Bool} {d : Decimal}

theorem takeSign_append (hs : Sign s negative) (hv : ∀ c ∈ v.head?, c ≠ '+' ∧ c ≠ '-') :
    takeSign (s ++ v) = (negative, v) := by
  cases hs with
  | plus => rfl
  | minus => rfl
  | absent =>
    cases v with
    | nil => rfl
    | cons c cs =>
      obtain ⟨hplus, hminus⟩ := hv c rfl
      simp [takeSign, hplus, hminus]

theorem exists_sign (cs : List Char) : ∃ s, cs = s ++ (takeSign cs).2 ∧ Sign s (takeSign cs).1 := by
  fun_cases takeSign cs with
  | case1 cs => exact ⟨['+'], rfl, .plus⟩
  | case2 cs => exact ⟨['-'], rfl, .minus⟩
  | case3 cs => exact ⟨[], rfl, .absent⟩

theorem no_sign_of_isDigit {c : Char} (hc : Digits.isDigit c = true) : c ≠ '+' ∧ c ≠ '-' := by
  constructor
  · rintro rfl
    exact absurd hc (by decide)
  · rintro rfl
    exact absurd hc (by decide)

theorem no_sign_of_digits (hds : SomeDigits ds) : ∀ c ∈ (ds ++ v).head?, c ≠ '+' ∧ c ≠ '-' := by
  obtain ⟨c, cs, rfl⟩ := List.exists_cons_of_ne_nil hds.ne_nil
  intro c' hc'
  cases hc'
  exact no_sign_of_isDigit (hds.all c List.mem_cons_self)

theorem takeDigits_append (hds : AllDigits ds) (v : List Char) :
    takeDigits (ds ++ v) = (ds ++ (takeDigits v).1, (takeDigits v).2) := by
  unfold takeDigits
  rw [List.takeWhile_append_of_pos hds, List.dropWhile_append_of_pos hds]

theorem takeDigits_stop (hv : ∀ c ∈ v.head?, Digits.isDigit c = false) : takeDigits v = ([], v) := by
  cases v with
  | nil => rfl
  | cons c cs => simp [takeDigits, hv c rfl]

theorem takeDigits_exact (hds : AllDigits ds) (hv : ∀ c ∈ v.head?, Digits.isDigit c = false) :
    takeDigits (ds ++ v) = (ds, v) := by
  rw [takeDigits_append hds, takeDigits_stop hv, List.append_nil]

theorem takeDigits_point (hds : AllDigits ds) (v : List Char) :
    takeDigits (ds ++ '.' :: v) = (ds, '.' :: v) := by
  apply takeDigits_exact hds
  intro c hc
  cases hc
  decide

theorem append_takeDigits (cs : List Char) : (takeDigits cs).1 ++ (takeDigits cs).2 = cs :=
  List.takeWhile_append_dropWhile

theorem allDigits_takeDigits (cs : List Char) : AllDigits (takeDigits cs).1 :=
  fun _ hc => List.mem_takeWhile_imp hc

theorem takeFraction_point (hf : AllDigits f) (v : List Char) :
    takeFraction ('.' :: f ++ v) = (f ++ (takeDigits v).1, (takeDigits v).2) :=
  takeDigits_append hf v

theorem takeFraction_stop (hv : ∀ c ∈ v.head?, c ≠ '.') : takeFraction v = ([], v) := by
  cases v with
  | nil => rfl
  | cons c cs => simp [takeFraction, hv c rfl]

theorem no_sign_of_mantissa (hm : Mantissa m w f) : ∀ c ∈ (m ++ v).head?, c ≠ '+' ∧ c ≠ '-' := by
  cases hm with
  | whole hw => exact no_sign_of_digits hw
  | point hw =>
    rw [List.append_assoc]
    exact no_sign_of_digits hw
  | fraction hf =>
    intro c hc
    cases hc
    decide

theorem Mantissa.ne_nil (hm : Mantissa m w f) : m ≠ [] := by
  cases hm with
  | whole hw => exact hw.ne_nil
  | point hw => exact List.append_ne_nil_of_left_ne_nil hw.ne_nil _
  | fraction hf => exact List.cons_ne_nil _ _

theorem Mantissa.has_digit (hm : Mantissa m w f) : w ≠ [] ∨ f ≠ [] := by
  cases hm with
  | whole hw => exact .inl hw.ne_nil
  | point hw => exact .inl hw.ne_nil
  | fraction hf => exact .inr hf.ne_nil

theorem Mantissa.allDigits (hm : Mantissa m w f) : AllDigits (w ++ f) := by
  unfold AllDigits
  rw [List.forall_mem_append]
  cases hm with
  | whole hw => exact ⟨hw.all, nofun⟩
  | point hw hf => exact ⟨hw.all, hf⟩
  | fraction hf => exact ⟨nofun, hf.all⟩

theorem Mantissa.taken (hm : Mantissa m w f) (hv : ∀ c ∈ v.head?, Digits.isDigit c = false ∧ c ≠ '.') :
    ∃ b, takeDigits (m ++ v) = (w, b) ∧ takeFraction b = (f, v) := by
  have hdigit : ∀ c ∈ v.head?, Digits.isDigit c = false := fun c hc => (hv c hc).1
  cases hm with
  | whole hw => exact ⟨v, takeDigits_exact hw.all hdigit, takeFraction_stop fun c hc => (hv c hc).2⟩
  | point hw hf =>
    refine ⟨'.' :: f ++ v, ?_, takeDigits_exact hf hdigit⟩
    rw [List.append_assoc]
    exact takeDigits_point hw.all (f ++ v)
  | fraction hf => exact ⟨'.' :: f ++ v, rfl, takeDigits_exact hf.all hdigit⟩

theorem exists_mantissa
    (hdigit : (takeDigits cs).1 ≠ [] ∨ (takeFraction (takeDigits cs).2).1 ≠ []) :
    ∃ m, cs = m ++ (takeFraction (takeDigits cs).2).2 ∧
      Mantissa m (takeDigits cs).1 (takeFraction (takeDigits cs).2).1 := by
  have hcs := append_takeDigits cs
  have hwhole := allDigits_takeDigits cs
  generalize (takeDigits cs).1 = w at *
  generalize (takeDigits cs).2 = b at *
  subst hcs
  fun_cases takeFraction b with
  | case1 b =>
    have hfraction := allDigits_takeDigits b
    by_cases hw : w = []
    · subst hw
      exact ⟨'.' :: (takeDigits b).1, by simp [append_takeDigits],
        .fraction ⟨hfraction, hdigit.resolve_left (by simp)⟩⟩
    · exact ⟨w ++ '.' :: (takeDigits b).1, by simp [append_takeDigits], .point ⟨hwhole, hw⟩ hfraction⟩
  | case2 b hpoint =>
    have hw : w ≠ [] := by
      rcases hdigit with hw | hf
      · exact hw
      · simp [takeFraction] at hf
    exact ⟨w, rfl, .whole ⟨hwhole, hw⟩⟩

theorem Exponent.stops (hx : Exponent x negative ds) :
    ∀ c ∈ x.head?, Digits.isDigit c = false ∧ c ≠ '.' := by
  cases hx with
  | absent => nofun
  | present he =>
    intro c hc
    cases hc
    rcases he with rfl | rfl <;> decide

/-! ## Reading -/

theorem isExponentLetter_iff {c : Char} : isExponentLetter c = true ↔ c = 'e' ∨ c = 'E' := by
  simp [isExponentLetter]

theorem exponent?_of_exponent (hx : Exponent x negative ds) :
    exponent? x = some (signed negative (Digits.exponent ds)) := by
  cases hx with
  | absent => rfl
  | @present e s _ _ he hs hds =>
    have htaken : takeSign (s ++ ds) = (negative, ds) := by
      have := no_sign_of_digits (v := []) hds
      rw [List.append_nil] at this
      exact takeSign_append hs this
    have hall : ds.all Digits.isDigit = true := List.all_eq_true.2 hds.all
    simp [exponent?, htaken, isExponentLetter_iff.2 he, hds.ne_nil, hall, signed]

theorem exists_exponent (hx : (exponent? x).isSome) : ∃ negative ds, Exponent x negative ds := by
  cases x with
  | nil => exact ⟨false, [], .absent⟩
  | cons e cs =>
    obtain ⟨s, hcs, hs⟩ := exists_sign cs
    simp only [exponent?] at hx
    split at hx
    · next hdigits =>
      simp only [Bool.and_eq_true, decide_eq_true_eq, List.all_eq_true] at hdigits
      obtain ⟨⟨he, hne⟩, hall⟩ := hdigits
      refine ⟨(takeSign cs).1, (takeSign cs).2, ?_⟩
      have hexponent := Exponent.present (isExponentLetter_iff.1 he) hs ⟨hall, hne⟩
      rwa [← hcs] at hexponent
    · cases hx

theorem read?_of_writes (hd : Writes cs d) : read? cs = some d.read := by
  obtain ⟨s, m, x, rfl, hs, hm, hx⟩ := hd
  obtain ⟨b, hwhole, hfraction⟩ := hm.taken hx.stops
  have hdigits : ¬ (d.whole = [] ∧ d.fraction = []) := not_and_or.2 hm.has_digit
  simp only [read?, takeSign_append hs (no_sign_of_mantissa hm), hwhole, hfraction,
    exponent?_of_exponent hx]
  rw [if_neg (by simpa using hdigits)]
  rfl

theorem exists_writes (hcs : (read? cs).isSome) : ∃ d, Writes cs d := by
  obtain ⟨s, hsign, hs⟩ := exists_sign cs
  simp only [read?] at hcs
  split at hcs
  · cases hcs
  · next hdigits =>
    rw [Bool.and_eq_true, decide_eq_true_eq, decide_eq_true_eq, not_and_or] at hdigits
    obtain ⟨m, hmantissa, hm⟩ := exists_mantissa hdigits
    rw [Option.isSome_map] at hcs
    obtain ⟨negative, ds, hx⟩ := exists_exponent hcs
    exact ⟨⟨_, _, _, negative, ds⟩, s, m, _, by rw [← hmantissa, ← hsign], hs, hm, hx⟩

/-- The texts that are read as numbers are the numerals. -/
theorem read?_isSome_iff : (read? cs).isSome ↔ ∃ d, Writes cs d := by
  constructor
  · exact exists_writes
  · rintro ⟨d, hd⟩
    rw [read?_of_writes hd]
    rfl

end Embedding.Numeral
