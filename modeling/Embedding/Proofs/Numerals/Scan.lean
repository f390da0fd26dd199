import Embedding.Proofs.Numerals.Grammar

/-!
# The scan for a numeral

The scan for the numeral at the front of a text leaves no more of it than the numeral does, and what it
passes over is a numeral once there is a digit. It goes from byte to byte, but looks only for characters
below 128, so it ends where it would end among the characters.
-/

namespace Embedding.Numeral

variable {cs p m x v w f ds : List Char} {c : Char} {negative : Bool} {d : Decimal}

/-! ## What the scan leaves -/

theorem takeSign_suffix (cs : List Char) : (takeSign cs).2 <:+ cs := by
  obtain ⟨s, hs, -⟩ := exists_sign cs
  exact ⟨s, hs.symm⟩

theorem takeDigits_suffix (cs : List Char) : (takeDigits cs).2 <:+ cs := List.dropWhile_suffix _

theorem takeFraction_suffix (cs : List Char) : (takeFraction cs).2 <:+ cs := by
  fun_cases takeFraction cs with
  | case1 cs => exact (takeDigits_suffix cs).trans (List.suffix_cons '.' cs)
  | case2 cs => exact List.suffix_rfl

theorem takeDigits_shorter_iff :
    (takeDigits cs).2.length < cs.length ↔ (takeDigits cs).1 ≠ [] := by
  have hlength := congrArg List.length (append_takeDigits cs)
  rw [List.length_append] at hlength
  rw [← List.length_pos_iff]
  omega

theorem afterExponent_suffix (cs : List Char) : afterExponent cs <:+ cs := by
  cases cs with
  | nil => exact List.suffix_rfl
  | cons e cs =>
    simp only [afterExponent]
    split
    · exact ((takeDigits_suffix _).trans (takeSign_suffix cs)).trans (List.suffix_cons e cs)
    · exact List.suffix_rfl

theorem Exponent.passed (hx : Exponent x negative ds) (v : List Char) :
    afterExponent (x ++ v) <:+ v := by
  cases hx with
  | absent => exact afterExponent_suffix v
  | @present e s _ _ he hs hds =>
    have htaken : takeSign (s ++ (ds ++ v)) = (negative, ds ++ v) := takeSign_append hs (no_sign_of_digits hds)
    have hdigits := takeDigits_append hds.all v
    have hshorter : (takeDigits v).2.length < (ds ++ v).length := by
      rw [List.length_append]
      have := List.length_pos_iff.2 hds.ne_nil
      have := (takeDigits_suffix v).length_le
      omega
    rw [List.cons_append, List.append_assoc]
    simp only [afterExponent, htaken, hdigits, isExponentLetter_iff.2 he, hshorter, decide_true, Bool.and_self,
      if_true]
    exact takeDigits_suffix v

theorem exists_exponent_before (cs : List Char) :
    ∃ x negative ds, cs = x ++ afterExponent cs ∧ Exponent x negative ds := by
  cases cs with
  | nil => exact ⟨[], false, [], rfl, .absent⟩
  | cons e cs =>
    simp only [afterExponent]
    split
    · next h =>
      rw [Bool.and_eq_true, decide_eq_true_eq, isExponentLetter_iff, takeDigits_shorter_iff] at h
      obtain ⟨s, hcs, hs⟩ := exists_sign cs
      refine ⟨_, _, _, ?_, .present h.1 hs ⟨allDigits_takeDigits _, h.2⟩⟩
      rw [List.cons_append, List.append_assoc, append_takeDigits, ← hcs]
    · exact ⟨[], false, [], rfl, .absent⟩

/-- Whether there is a digit behind the sign or behind a point that follows it. -/
def HasDigit (cs : List Char) : Prop :=
  (takeDigits (takeSign cs).2).1 ≠ [] ∨ (takeFraction (takeDigits (takeSign cs).2).2).1 ≠ []

theorem Mantissa.passed (hm : Mantissa m w f) (v : List Char) :
    (takeFraction (takeDigits (m ++ v)).2).2 <:+ v ∧
      ((takeDigits (m ++ v)).1 ≠ [] ∨ (takeFraction (takeDigits (m ++ v)).2).1 ≠ []) := by
  cases hm with
  | whole hw =>
    rw [takeDigits_append hw.all]
    exact ⟨(takeFraction_suffix _).trans (takeDigits_suffix v), .inl (by simp [hw.ne_nil])⟩
  | point hw hf =>
    rw [List.append_assoc, List.cons_append, takeDigits_point hw.all]
    dsimp only
    rw [← List.cons_append, takeFraction_point hf]
    exact ⟨takeDigits_suffix v, .inl hw.ne_nil⟩
  | fraction hf =>
    have hpoint : takeDigits ('.' :: f ++ v) = ([], '.' :: f ++ v) := rfl
    rw [hpoint, takeFraction_point hf.all]
    exact ⟨takeDigits_suffix v, .inr (by simp [hf.ne_nil])⟩

theorem afterNumber_of_hasDigit (hcs : HasDigit cs) :
    afterNumber cs = afterExponent (takeFraction (takeDigits (takeSign cs).2).2).2 := by
  obtain ⟨m, hmantissa, hm⟩ := exists_mantissa hcs
  have hlength := congrArg List.length hmantissa
  rw [List.length_append] at hlength
  have hpos := List.length_pos_iff.2 hm.ne_nil
  exact if_neg (by omega)

theorem afterNumber_suffix (cs : List Char) : afterNumber cs <:+ cs := by
  have hmantissa := (takeFraction_suffix _).trans ((takeDigits_suffix _).trans (takeSign_suffix cs))
  simp only [afterNumber]
  split
  · exact hmantissa
  · exact (afterExponent_suffix _).trans hmantissa

/-- The scan gets past every numeral at the front, and has found a digit by then. -/
theorem Writes.passed (hp : Writes p d) (v : List Char) : HasDigit (p ++ v) ∧ afterNumber (p ++ v) <:+ v := by
  obtain ⟨negative, w, f, negativeExponent, ds⟩ := d
  obtain ⟨s, m, x, rfl, hs, hm, hx⟩ := hp
  have hsign : takeSign (s ++ (m ++ x) ++ v) = (negative, m ++ (x ++ v)) := by
    rw [List.append_assoc, List.append_assoc]
    exact takeSign_append hs (no_sign_of_mantissa hm)
  obtain ⟨hrest, hdigit⟩ := hm.passed (x ++ v)
  have hdigit : HasDigit (s ++ (m ++ x) ++ v) := by
    rw [HasDigit, hsign]
    exact hdigit
  refine ⟨hdigit, ?_⟩
  rw [afterNumber_of_hasDigit hdigit, hsign]
  dsimp only at hm hx ⊢
  have hstops := hx.stops
  have hpassed := hx.passed v
  cases x with
  | nil => exact (afterExponent_suffix _).trans hrest
  | cons e x =>
    -- nothing of an exponent that is there is taken for the mantissa
    obtain ⟨b, hwhole, hfraction⟩ := hm.taken (v := e :: x ++ v) hstops
    rw [hwhole, hfraction]
    exact hpassed

/-- Once there is a digit, what the scan passes over is a numeral. -/
theorem exists_numeral (hcs : HasDigit cs) : ∃ p d, cs = p ++ afterNumber cs ∧ Writes p d := by
  obtain ⟨s, hsign, hs⟩ := exists_sign cs
  obtain ⟨m, hmantissa, hm⟩ := exists_mantissa hcs
  obtain ⟨x, negative, ds, hexponent, hx⟩ :=
    exists_exponent_before (takeFraction (takeDigits (takeSign cs).2).2).2
  refine ⟨s ++ (m ++ x), ⟨_, _, _, negative, ds⟩, ?_, s, m, x, rfl, hs, hm, hx⟩
  rw [afterNumber_of_hasDigit hcs, List.append_assoc, List.append_assoc, ← hexponent, ← hmantissa, ← hsign]

/-! ## Bytes as characters -/

/-- The bytes of a text, each as the character with its number. -/
def bytewise (cs : List Char) : List Char := (cs.flatMap String.utf8EncodeChar).map Char.ofUInt8

theorem bytewise_append (cs ds : List Char) : bytewise (cs ++ ds) = bytewise cs ++ bytewise ds := by
  simp [bytewise]

theorem mem_head_of_bytewise {b : Char} (hb : b ∈ (bytewise cs).head?) (hlt : b.toNat < 128) : b ∈ cs.head? := by
  cases cs with
  | nil => cases hb
  | cons c cs =>
    obtain ⟨n, ns, hn⟩ := List.exists_cons_of_ne_nil (String.utf8EncodeChar_ne_nil (c := c))
    have hread := Utf8.leading?_encodeChar_append c []
    rw [bytewise, List.flatMap_cons, hn] at hb
    rw [hn, List.append_nil, Utf8.leading?] at hread
    obtain rfl : Char.ofUInt8 n = b := Option.some.inj hb
    have hn : n.toNat < 128 := hlt
    rw [if_pos (UInt8.lt_iff_toNat_lt.2 hn)] at hread
    exact hread.symm

theorem bytewise_cons (hc : c.toNat < 128) (cs : List Char) : bytewise (c :: cs) = c :: bytewise cs := by
  have hsize : c.utf8Size = 1 := by
    rw [Char.utf8Size_eq_one_iff, UInt32.le_iff_toNat_le]
    exact Nat.le_of_lt_succ hc
  have hcons : bytewise (c :: cs) = Char.ofUInt8 c.val.toUInt8 :: bytewise cs := by
    rw [bytewise, List.flatMap_cons, String.utf8EncodeChar_eq_singleton hsize]
    rfl
  have hlt : (Char.ofUInt8 c.val.toUInt8).toNat < 128 := lt_of_le_of_lt (Nat.mod_le c.toNat 256) hc
  have hhead : Char.ofUInt8 c.val.toUInt8 ∈ (c :: cs).head? := mem_head_of_bytewise (by rw [hcons]; rfl) hlt
  rw [hcons, ← Option.some.inj hhead]

theorem bytewise_ne_nil (hcs : cs ≠ []) : bytewise cs ≠ [] := by
  obtain ⟨c, cs, rfl⟩ := List.exists_cons_of_ne_nil hcs
  simp [bytewise, String.utf8EncodeChar_ne_nil]

theorem length_bytewise_lt_iff (hv : v <:+ cs) :
    (bytewise v).length < (bytewise cs).length ↔ v.length < cs.length := by
  obtain ⟨p, rfl⟩ := hv
  rw [bytewise_append, List.length_append, List.length_append]
  by_cases hp : p = []
  · subst hp
    simp [bytewise]
  · have := List.length_pos_iff.2 hp
    have := List.length_pos_iff.2 (bytewise_ne_nil hp)
    omega

theorem length_bytewise_eq_iff (hv : v <:+ cs) :
    (bytewise v).length = (bytewise cs).length ↔ v.length = cs.length := by
  have hlt := length_bytewise_lt_iff hv
  have hle := hv.length_le
  obtain ⟨p, rfl⟩ := hv
  rw [bytewise_append, List.length_append] at hlt ⊢
  omega

theorem dropWhile_bytewise {q : Char → Bool} (hq : ∀ c, q c = true → c.toNat < 128) (cs : List Char) :
    (bytewise cs).dropWhile q = bytewise (cs.dropWhile q) := by
  -- over the characters, as some of them are several bytes
  induction cs with
  | nil => rfl
  | cons c cs ih =>
    by_cases hc : q c = true
    · rw [bytewise_cons (hq c hc), List.dropWhile_cons_of_pos hc, List.dropWhile_cons_of_pos hc, ih]
    · rw [List.dropWhile_cons_of_neg hc]
      cases hb : bytewise (c :: cs) with
      | nil => rfl
      | cons b bs =>
        apply List.dropWhile_cons_of_neg
        intro hqb
        have hhead : b ∈ (c :: cs).head? := mem_head_of_bytewise (by rw [hb]; rfl) (hq b hqb)
        cases hhead
        exact hc hqb

theorem isDigit_le (hc : Digits.isDigit c = true) : c.toNat ≤ '9'.toNat := by
  rw [Digits.isDigit, Bool.and_eq_true, decide_eq_true_eq, decide_eq_true_eq] at hc
  exact UInt32.le_iff_toNat_le.1 (Char.le_def.1 hc.2)

theorem takeDigits_bytewise (cs : List Char) : (takeDigits (bytewise cs)).2 = bytewise (takeDigits cs).2 :=
  dropWhile_bytewise (fun _ hc => (isDigit_le hc).trans_lt (by decide)) cs

theorem takeSign_bytewise (cs : List Char) : (takeSign (bytewise cs)).2 = bytewise (takeSign cs).2 := by
  fun_cases takeSign cs with
  | case1 cs => rw [bytewise_cons (by decide)]; rfl
  | case2 cs => rw [bytewise_cons (by decide)]; rfl
  | case3 cs hplus hminus =>
    refine congrArg Prod.snd (takeSign_append .absent fun b hb => ⟨?_, ?_⟩)
    · rintro rfl
      obtain ⟨cs, rfl⟩ := List.head?_eq_some_iff.1 (mem_head_of_bytewise hb (by decide))
      exact hplus cs rfl
    · rintro rfl
      obtain ⟨cs, rfl⟩ := List.head?_eq_some_iff.1 (mem_head_of_bytewise hb (by decide))
      exact hminus cs rfl

theorem takeFraction_bytewise (cs : List Char) :
    (takeFraction (bytewise cs)).2 = bytewise (takeFraction cs).2 := by
  fun_cases takeFraction cs with
  | case1 cs =>
    rw [bytewise_cons (by decide)]
    exact takeDigits_bytewise cs
  | case2 cs hpoint =>
    refine congrArg Prod.snd (takeFraction_stop ?_)
    rintro _ hb rfl
    obtain ⟨cs, rfl⟩ := List.head?_eq_some_iff.1 (mem_head_of_bytewise hb (by decide))
    exact hpoint cs rfl

theorem isExponentLetter_lt (hc : isExponentLetter c = true) : c.toNat < 128 := by
  rcases isExponentLetter_iff.1 hc with rfl | rfl <;> decide

theorem afterExponent_stop (hv : ∀ c ∈ v.head?, isExponentLetter c = false) : afterExponent v = v := by
  cases v with
  | nil => rfl
  | cons c cs => simp [afterExponent, hv c rfl]

theorem afterExponent_bytewise (cs : List Char) : afterExponent (bytewise cs) = bytewise (afterExponent cs) := by
  by_cases hletter : ∃ e cs', cs = e :: cs' ∧ isExponentLetter e = true
  · obtain ⟨e, cs, rfl, he⟩ := hletter
    have hbytes := bytewise_cons (isExponentLetter_lt he) cs
    rw [hbytes]
    simp only [afterExponent, takeSign_bytewise, takeDigits_bytewise,
      length_bytewise_lt_iff (takeDigits_suffix _), apply_ite bytewise, hbytes]
  · have hstop : ∀ c ∈ cs.head?, isExponentLetter c = false := by
      intro c hc
      obtain ⟨cs, rfl⟩ := List.head?_eq_some_iff.1 hc
      exact Bool.eq_false_iff.2 fun he => hletter ⟨c, cs, rfl, he⟩
    rw [afterExponent_stop hstop]
    apply afterExponent_stop
    intro b hb
    refine Bool.eq_false_iff.2 fun he => ?_
    have := hstop b (mem_head_of_bytewise hb (isExponentLetter_lt he))
    rw [he] at this
    cases this

/-- The scan of the bytes goes as far as one of the characters would. -/
theorem afterNumber_bytewise (cs : List Char) : afterNumber (bytewise cs) = bytewise (afterNumber cs) := by
  have hsuffix := (takeFraction_suffix _).trans (takeDigits_suffix (takeSign cs).2)
  simp only [afterNumber, takeSign_bytewise, takeDigits_bytewise, takeFraction_bytewise, afterExponent_bytewise,
    length_bytewise_eq_iff hsuffix, apply_ite bytewise]

theorem encode_bytewise (cs : List Char) :
    (Utf8.encode (String.ofList cs)).map Char.ofUInt8 = bytewise cs := by
  rw [Utf8.encode_eq_flatMap, String.toList_ofList]
  rfl

theorem scan_encode (hp : cs = p ++ afterNumber cs) :
    scan (Utf8.encode (String.ofList cs)) = (Utf8.encode (String.ofList p)).length := by
  have hlength (ds : List Char) : (Utf8.encode (String.ofList ds)).length = (bytewise ds).length := by
    rw [← encode_bytewise, List.length_map]
  have hall := congrArg (fun ds => (bytewise ds).length) hp
  simp only [bytewise_append, List.length_append] at hall
  rw [scan, encode_bytewise, afterNumber_bytewise, hlength, hlength, hall]
  omega

theorem value_eq (hp : cs = p ++ afterNumber cs) : value cs = (read? p).getD .zero := by
  have hbytes : Utf8.encode (String.ofList cs) =
      Utf8.encode (String.ofList p) ++ Utf8.encode (String.ofList (afterNumber cs)) := by
    simp only [Utf8.encode_eq_flatMap, String.toList_ofList]
    rw [← List.flatMap_append, ← hp]
  rw [value, scan_encode hp, hbytes, List.take_left, Utf8.decode_encode]
  simp [Except.toOption]

end Embedding.Numeral
