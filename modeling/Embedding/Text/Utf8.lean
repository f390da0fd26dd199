/-!
# Byte strings and their characters

Bytes are cut into characters and faults. A fault is the longest run of bytes that starts a
character and cannot be continued to one, or a single byte that starts none.
-/

namespace Embedding.Utf8

def encode (s : String) : List UInt8 := s.toByteArray.data.toList

/-- The character at the front of the bytes: a byte below 128 is one, and all others have at most
four bytes. -/
def leading? : List UInt8 → Option Char
  | [] => none
  | b :: bs =>
    if b < 0x80 then some (Char.ofUInt8 b)
    else ByteArray.utf8DecodeChar? ⟨(b :: bs.take 3).toArray⟩ 0

/-- Where a byte string stops being text. -/
inductive Fault
  /-- `length` bytes at `index` belong to no character. -/
  | invalid (length index : Nat)
  /-- The bytes from `index` to the end start a character that is cut off. -/
  | incomplete (index : Nat)
  deriving DecidableEq

def Fault.message : Fault → String
  | .invalid length index => s!"invalid utf-8 sequence of {length} bytes from index {index}"
  | .incomplete index => s!"incomplete utf-8 byte sequence from index {index}"

def isTail (b : UInt8) : Bool := 0x80 ≤ b && b ≤ 0xbf

/-- Whether `second` may follow `first` at the start of a character of three or four bytes. -/
def canFollow (first second : UInt8) : Bool :=
  if first = 0xe0 then 0xa0 ≤ second && second ≤ 0xbf
  else if first = 0xed then 0x80 ≤ second && second ≤ 0x9f
  else if first = 0xf0 then 0x90 ≤ second && second ≤ 0xbf
  else if first = 0xf4 then 0x80 ≤ second && second ≤ 0x8f
  else isTail second

/-- The length of the fault at the front of bytes that start no character, `none` if they are cut off. -/
def faultLength : List UInt8 → Option Nat
  | [] => none
  | first :: rest =>
    if 0xc2 ≤ first && first ≤ 0xdf then
      match rest with
      | [] => none
      | _ => some 1
    else if 0xe0 ≤ first && first ≤ 0xef then
      match rest with
      | [] => none
      | [second] => if canFollow first second then none else some 1
      | second :: _ => if canFollow first second then some 2 else some 1
    else if 0xf0 ≤ first && first ≤ 0xf4 then
      match rest with
      | [] => none
      | [second] => if canFollow first second then none else some 1
      | [second, third] =>
        if !canFollow first second then some 1 else if isTail third then none else some 2
      | second :: third :: _ =>
        if !canFollow first second then some 1 else if isTail third then some 3 else some 2
    else some 1

/-- A piece of a byte string. -/
inductive Piece
  | char (c : Char)
  | fault (length : Nat)
  | cutOff
  deriving DecidableEq

/-- The piece at the front of the bytes, with its length. -/
def leadingPiece (bs : List UInt8) : Piece × Nat :=
  match leading? bs with
  | some c => (.char c, c.utf8Size)
  | none =>
    match faultLength bs with
    | some n => (.fault n, n)
    | none => (.cutOff, bs.length)

/-- The pieces of the bytes after the next `skip` of them. -/
def piecesAfter : (skip : Nat) → List UInt8 → List Piece
  | _, [] => []
  | skip + 1, _ :: bs => piecesAfter skip bs
  | 0, b :: bs =>
    let (piece, length) := leadingPiece (b :: bs)
    piece :: piecesAfter (length - 1) bs

def pieces (bs : List UInt8) : List Piece := piecesAfter 0 bs

/-- The text of the bytes, with U+FFFD for every fault. -/
def decodeLossy (bs : List UInt8) : String :=
  String.ofList ((pieces bs).map fun
    | .char c => c
    | .fault _ | .cutOff => '\ufffd')

/-- The characters of pieces that start at `index`, up to the first fault. -/
def charsOf : (index : Nat) → List Piece → Except Fault (List Char)
  | _, [] => .ok []
  | index, .char c :: ps => (charsOf (index + c.utf8Size) ps).map (c :: ·)
  | index, .fault n :: _ => .error (.invalid n index)
  | index, .cutOff :: _ => .error (.incomplete index)

/-- The text of the bytes, or their first fault. -/
def decode (bs : List UInt8) : Except Fault String :=
  (charsOf 0 (pieces bs)).map String.ofList

theorem encode_eq_flatMap (s : String) : encode s = s.toList.flatMap String.utf8EncodeChar := by
  conv => lhs; rw [encode, ← String.ofList_toList (s := s), String.toByteArray_ofList]
  simp [List.utf8Encode]

theorem encodeChar_ofUInt8 {b : UInt8} (h : b < 0x80) :
    String.utf8EncodeChar (Char.ofUInt8 b) = [b] := by
  have h : b.toNat ≤ 127 := Nat.le_of_lt_succ (UInt8.lt_iff_toNat_lt.mp h)
  have hval : (Char.ofUInt8 b).val = b.toUInt32 := rfl
  simp [String.utf8EncodeChar, hval, h]

theorem leading?_eq_utf8DecodeChar? (bs : List UInt8) :
    leading? bs = ByteArray.utf8DecodeChar? ⟨(bs.take 4).toArray⟩ 0 := by
  cases bs with
  | nil => rfl
  | cons b bs =>
    rw [leading?]
    split
    next h =>
      have split : (⟨((b :: bs).take 4).toArray⟩ : ByteArray) =
          (String.utf8EncodeChar (Char.ofUInt8 b)).toByteArray ++ (bs.take 3).toByteArray := by
        rw [encodeChar_ofUInt8 h]
        ext1
        simp
      rw [split, ByteArray.utf8DecodeChar?_utf8EncodeChar_append]
    next => rfl

theorem leading?_encodeChar_append (c : Char) (bs : List UInt8) :
    leading? (String.utf8EncodeChar c ++ bs) = some c := by
  have hlen : (String.utf8EncodeChar c).length ≤ 4 := by
    simpa using c.utf8Size_le_four
  have h : (⟨((String.utf8EncodeChar c ++ bs).take 4).toArray⟩ : ByteArray) =
      (String.utf8EncodeChar c).toByteArray
        ++ (bs.take (4 - (String.utf8EncodeChar c).length)).toByteArray := by
    rw [List.take_append, List.take_of_length_le hlen]
    ext1
    simp
  rw [leading?_eq_utf8DecodeChar?, h, ByteArray.utf8DecodeChar?_utf8EncodeChar_append]

theorem piecesAfter_drop (n : Nat) (bs : List UInt8) :
    piecesAfter n bs = piecesAfter 0 (bs.drop n) := by
  induction n generalizing bs with
  | zero => rfl
  | succ n ih =>
    cases bs with
    | nil => rfl
    | cons b bs => simpa [piecesAfter] using ih bs

theorem pieces_encodeChar_append (c : Char) (bs : List UInt8) :
    pieces (String.utf8EncodeChar c ++ bs) = .char c :: pieces bs := by
  have hl := leading?_encodeChar_append c bs
  have hn := String.length_utf8EncodeChar c
  have hp := Char.utf8Size_pos c
  cases hb : String.utf8EncodeChar c with
  | nil => simp [hb] at hn; omega
  | cons b tl =>
    rw [hb] at hl hn
    simp only [List.cons_append] at hl ⊢
    simp only [pieces, piecesAfter, leadingPiece, hl]
    rw [piecesAfter_drop]
    have : (tl ++ bs).drop (c.utf8Size - 1) = bs := by
      have ht : tl.length = c.utf8Size - 1 := by simp at hn; omega
      rw [← ht, List.drop_left]
    rw [this]

theorem pieces_encode (s : String) : pieces (encode s) = s.toList.map .char := by
  rw [encode_eq_flatMap]
  induction s.toList with
  | nil => rfl
  | cons c cs ih =>
    rw [List.flatMap_cons, pieces_encodeChar_append, ih, List.map_cons]

theorem charsOf_map_char (index : Nat) (cs : List Char) :
    charsOf index (cs.map .char) = .ok cs := by
  induction cs generalizing index with
  | nil => rfl
  | cons c cs ih => simp [charsOf, ih, Except.map]

theorem decode_encode (s : String) : decode (encode s) = .ok s := by
  simp [decode, pieces_encode, charsOf_map_char, Except.map]

theorem eq_append_of_leading? {bs : List UInt8} {c : Char} (hc : leading? bs = some c) :
    ∃ rest, bs = String.utf8EncodeChar c ++ rest := by
  rw [leading?_eq_utf8DecodeChar?] at hc
  have hbytes := congrArg (·.data.toList) (String.toByteArray_utf8EncodeChar_of_utf8DecodeChar?_eq_some hc)
  have htake : String.utf8EncodeChar c = bs.take c.utf8Size := by
    simpa [List.take_take, Nat.min_eq_left c.utf8Size_le_four] using hbytes
  exact ⟨bs.drop c.utf8Size, by rw [htake, List.take_append_drop]⟩

/-- Bytes without a fault start with a character, and go on without one. -/
theorem split_of_charsOf {b : UInt8} {bs : List UInt8} {index : Nat} {cs : List Char}
    (hcs : charsOf index (pieces (b :: bs)) = .ok cs) : ∃ c rest index' cs',
      b :: bs = String.utf8EncodeChar c ++ rest ∧ cs = c :: cs' ∧ charsOf index' (pieces rest) = .ok cs' := by
  cases hleading : leading? (b :: bs) with
  | none =>
    simp only [pieces, piecesAfter, leadingPiece, hleading] at hcs
    cases hlength : faultLength (b :: bs) <;> rw [hlength] at hcs <;> cases hcs
  | some c =>
    obtain ⟨rest, hrest⟩ := eq_append_of_leading? hleading
    rw [hrest, pieces_encodeChar_append, charsOf] at hcs
    cases hmore : charsOf (index + c.utf8Size) (pieces rest) with
    | error fault => rw [hmore] at hcs; cases hcs
    | ok cs' =>
      rw [hmore] at hcs
      cases hcs
      exact ⟨c, rest, _, cs', hrest, rfl, hmore⟩

theorem eq_flatMap_of_charsOf {cs : List Char} {bs : List UInt8} {index : Nat}
    (hcs : charsOf index (pieces bs) = .ok cs) : bs = cs.flatMap String.utf8EncodeChar := by
  induction cs generalizing bs index with
  | nil =>
    cases bs with
    | nil => rfl
    | cons b bs =>
      obtain ⟨c, rest, index', cs', -, hnil, -⟩ := split_of_charsOf hcs
      cases hnil
  | cons c cs ih =>
    cases bs with
    | nil => cases hcs
    | cons b bs =>
      obtain ⟨c, rest, index', cs', hbytes, hcons, hrest⟩ := split_of_charsOf hcs
      cases hcons
      rw [hbytes, List.flatMap_cons, ← ih hrest]

theorem decode_eq_ok_iff {bs : List UInt8} {s : String} : decode bs = .ok s ↔ bs = encode s := by
  refine ⟨fun hs => ?_, fun hs => hs ▸ decode_encode s⟩
  unfold decode at hs
  cases hcs : charsOf 0 (pieces bs) with
  | error fault => rw [hcs] at hs; cases hs
  | ok cs =>
    rw [hcs] at hs
    cases hs
    rw [encode_eq_flatMap, String.toList_ofList]
    exact eq_flatMap_of_charsOf hcs

theorem decodeLossy_encode (s : String) : decodeLossy (encode s) = s := by
  rw [decodeLossy, pieces_encode, List.map_map]
  conv => rhs; rw [← String.ofList_toList (s := s)]
  congr 1
  exact List.map_id' _ |>.symm ▸ rfl

end Embedding.Utf8
