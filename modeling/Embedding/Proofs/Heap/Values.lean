import Embedding.Heap.Loading
import Embedding.Request

/-!
# Values of scalars

A scalar comes into being in a few ways, and is only copied afterwards or used as a number. Each of these
keeps it consistent: a reference is nothing else, text is a string, and a truth value is an integer and a
string as well. A string that is marked as text but is none can only be brought by a request.
-/

namespace Embedding

/-- A scalar in the content is among these. -/
def Content.Within (V : Scalar → Prop) (content : Content) : Prop := ∀ s, content = .scalar s → V s

theorem Content.within_scalar {V : Scalar → Prop} {s : Scalar} (hs : V s) : (Content.scalar s).Within V := by
  rintro _ ⟨⟩
  exact hs

namespace Scalar

variable {V W : Scalar → Prop} {s : Scalar}

/-- The scalars that an interpreter makes by itself are among these. -/
structure Ample (V : Scalar → Prop) : Prop where
  undef : V .undef
  int : ∀ n, V (.ofInt n)
  num : ∀ x, V (.ofNum x)
  text : ∀ s, V (.ofText s)
  bytes : ∀ bytes, V (.ofBytes bytes false)
  bool : ∀ b, V (.ofBool b)
  ref : ∀ target, V (.ofRef target)

theorem ample_true : Ample fun _ => True :=
  ⟨trivial, fun _ => trivial, fun _ => trivial, fun _ => trivial, fun _ => trivial, fun _ => trivial,
    fun _ => trivial⟩

theorem Ample.literal (hV : Ample V) (literal : Literal) : V (Heap.literalScalar literal) := by
  cases literal with
  | undef => exact hV.undef
  | int n => exact hV.int n
  | num x => exact hV.num x
  | text s => exact hV.text s

theorem Ample.and (hV : Ample V) (hW : Ample W) : Ample fun s => V s ∧ W s where
  undef := ⟨hV.undef, hW.undef⟩
  int n := ⟨hV.int n, hW.int n⟩
  num x := ⟨hV.num x, hW.num x⟩
  text s := ⟨hV.text s, hW.text s⟩
  bytes bs := ⟨hV.bytes bs, hW.bytes bs⟩
  bool b := ⟨hV.bool b, hW.bool b⟩
  ref target := ⟨hV.ref target, hW.ref target⟩

/-! ## Consistent flags -/

/-- The flags agree with the slots and with each other. -/
structure Consistent (s : Scalar) : Prop where
  ref : s.flags.ref = true ↔ ∃ target, s.ref = some target
  alone : s.flags.ref = true → s.flags = { ref := true }
  text : s.flags.utf8 = true → s.flags.text = true
  truth : s.flags.truth = true → s.flags.int = true ∧ s.flags.text = true

/-- What the flags do not say by the way they are found. -/
theorem consistent_of (halone : s.ref.isSome = true → s.flags = { ref := true })
    (htruth : s.truth = true → s.int.isSome = true ∧ s.text.isSome = true) : s.Consistent where
  ref := Option.isSome_iff_exists
  alone := halone
  text hutf8 := by
    rw [flags] at hutf8 ⊢
    cases htext : s.text with
    | none => simp [htext] at hutf8
    | some t => rfl
  truth := htruth

theorem ample_consistent : Ample Consistent where
  undef := consistent_of nofun nofun
  int _ := consistent_of nofun nofun
  num _ := consistent_of nofun nofun
  text _ := consistent_of nofun nofun
  bytes _ := consistent_of nofun nofun
  bool _ := consistent_of nofun fun _ => ⟨rfl, rfl⟩
  ref _ := consistent_of (fun _ => rfl) nofun

theorem consistent_ofBytes (bytes : List UInt8) (utf8 : Bool) : (ofBytes bytes utf8).Consistent :=
  consistent_of nofun nofun

/-- A string that is not a number yet is neither a reference nor a truth value. -/
theorem Consistent.numified (hs : s.Consistent) : s.numified.Consistent := by
  unfold Scalar.numified
  split
  · next t ht =>
    split
    · exact hs
    · next hnumeric =>
      have hnoref : ¬ s.ref.isSome = true := fun href => by
        have hflag : s.flags.text = false := by rw [hs.alone href]
        simp [flags, ht] at hflag
      have hnotruth : ¬ s.truth = true := fun htruth =>
        hnumeric (by rw [Flags.isNumeric, (hs.truth htruth).1, Bool.true_or])
      dsimp only
      split <;> exact consistent_of (absurd · hnoref) (absurd · hnotruth)
  · exact hs

/-! ## Text -/

/-- A string that is marked as text is one. -/
def isTextual (s : Scalar) : Bool := s.text.all fun t => !t.utf8 || (Utf8.decode t.bytes).toOption.isSome

theorem isTextual_ofText (t : String) : (ofText t).isTextual = true := by
  simp [isTextual, ofText, ofBytes, Utf8.decode_encode, Except.toOption]

theorem ample_textual : Ample fun s => s.isTextual = true where
  undef := rfl
  int _ := rfl
  num _ := rfl
  text := isTextual_ofText
  bytes _ := rfl
  bool _ := rfl
  ref _ := rfl

theorem numified_text (s : Scalar) : s.numified.text = s.text := by
  unfold numified
  split
  · split
    · rfl
    · dsimp only
      split <;> rfl
  · rfl

theorem isTextual_numified (s : Scalar) : s.numified.isTextual = s.isTextual := by
  rw [isTextual, isTextual, numified_text]

theorem encoded_of_isTextual (hs : s.isTextual = true) {t : ByteText} (ht : s.text = some t)
    (hutf8 : t.utf8 = true) : ∃ u, t.bytes = Utf8.encode u := by
  simp only [isTextual, ht, Option.all_some, hutf8, Bool.not_true, Bool.false_or] at hs
  cases hdecode : Utf8.decode t.bytes with
  | ok u => exact ⟨u, Utf8.decode_eq_ok_iff.1 hdecode⟩
  | error fault => simp [hdecode, Except.toOption] at hs

/-- The flags are consistent, and text is text. -/
def Sound (s : Scalar) : Prop := s.Consistent ∧ s.isTextual = true

end Scalar

/-! ## Requests -/

namespace Request

variable {κ ι : Type} {s : Shape}

/-- The scalar that comes with a request as it is. -/
def brought? : {s : Shape} → Request κ s → Option Scalar
  | _, .newBytes bytes utf8 => some (.ofBytes bytes utf8)
  | _, _ => none

theorem exists_of_brought {request : Request κ s} {x : Scalar} (hx : request.brought? = some x) :
    ∃ bytes utf8, x = .ofBytes bytes utf8 := by
  cases request <;> first | exact ⟨_, _, (Option.some.inj hx).symm⟩ | cases hx

/-- If the request brings text, it is one. -/
def isTextual (request : Request κ s) : Bool := request.brought?.all Scalar.isTextual

theorem brought?_map (f : κ → ι) (request : Request κ s) : (request.map f).brought? = request.brought? := by
  cases request <;> rfl

theorem isTextual_map (f : κ → ι) (request : Request κ s) :
    (request.map f).isTextual = request.isTextual := by
  rw [isTextual, isTextual, brought?_map]

/-- What a request is about is not brought by it. -/
theorem isTextual_of_cells {request : Request κ s} {c : κ} (hcells : request.cells = [c]) :
    request.isTextual = true := by
  cases request <;> first | rfl | cases hcells

theorem isTextual_encode (t : String) : (newBytes (Utf8.encode t) true : Request κ .cell).isTextual = true :=
  Scalar.isTextual_ofText t

end Request

end Embedding
