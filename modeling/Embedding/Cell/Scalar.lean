import Embedding.Binary64.Shortest
import Embedding.Cell.Flags
import Embedding.Cell.Kind
import Embedding.Text.Numeral
import Embedding.Text.Utf8

/-!
# Scalars

A scalar can hold one value in several representations at once, each in a slot of its own. A reader
takes the representation that suits it best and converts another where it has to.
-/

namespace Embedding

/-- A string of bytes, and whether it is text. -/
structure ByteText where
  bytes : List UInt8
  utf8 : Bool
  deriving DecidableEq

structure Scalar where
  int : Option Int64 := none
  num : Option Binary64 := none
  text : Option ByteText := none
  truth : Bool := false
  ref : Option CellId := none
  deriving DecidableEq

namespace Scalar

def undef : Scalar := {}

def ofInt (n : Int64) : Scalar := { int := some n }

def ofNum (x : Binary64) : Scalar := { num := some x }

def ofBytes (bytes : List UInt8) (utf8 : Bool) : Scalar := { text := some ⟨bytes, utf8⟩ }

def ofText (s : String) : Scalar := ofBytes (Utf8.encode s) true

/-- A truth value is also an integer and a byte string: 1 and `1`, or 0 and the empty one. -/
def ofBool (b : Bool) : Scalar where
  int := some (if b then 1 else 0)
  text := some ⟨if b then Utf8.encode "1" else [], false⟩
  truth := true

def ofRef (target : CellId) : Scalar := { ref := some target }

def flags (s : Scalar) : Flags where
  int := s.int.isSome
  num := s.num.isSome
  text := s.text.isSome
  utf8 := s.text.any (·.utf8)
  truth := s.truth
  ref := s.ref.isSome

def kind (s : Scalar) : Kind :=
  if s.flags.ref then .ref else if s.flags.isEmpty then .undef else .scalar

/-- The characters that a string is read as a number by. -/
def numeral (t : ByteText) : List Char := Blank.trim (Utf8.decodeLossy t.bytes).toList

/-- The scalar as an integer. A floating-point number is cut to the nearest word toward zero, a
string counts as the word or else the number it writes, and a reference as its target's number. -/
def toInt (s : Scalar) : Int64 :=
  match s.int, s.num, s.text, s.ref with
  | some n, _, _, _ => n
  | none, some x, _, _ => x.toInt64
  | none, none, some t, _ =>
    let cs := numeral t
    (Numeral.int64? cs).getD (Numeral.value cs).toInt64
  | none, none, none, some target => Int64.ofNat target.index
  | none, none, none, none => 0

def toNum (s : Scalar) : Binary64 :=
  match s.num, s.int, s.text, s.ref with
  | some x, _, _, _ => x
  | none, some n, _, _ => .ofInt n.toInt
  | none, none, some t, _ => Numeral.value (numeral t)
  | none, none, none, some target => .ofInt target.index
  | none, none, none, none => .zero

/-- The scalar after its use as a number: a string keeps the number it was read as. -/
def numified (s : Scalar) : Scalar :=
  match s.text with
  | some t =>
    if s.flags.isNumeric then s
    else
      let cs := numeral t
      match Numeral.int64? cs with
      | some n => { s with int := some n }
      | none => { s with num := some (Numeral.value cs) }
  | none => s

/-- The undefined value, the empty string, `0` and zero are false. -/
def isTrue (s : Scalar) : Bool :=
  match s.ref, s.text, s.int, s.num with
  | some _, _, _, _ => true
  | none, some t, _, _ => t.bytes ≠ [] && t.bytes ≠ Utf8.encode "0"
  | none, none, some n, _ => n ≠ 0
  | none, none, none, some x => !x.isZero
  | none, none, none, none => false

/-- The text of a number: integral ones below `10 ^ 15` as integers, all others with their shortest
digits. -/
def numText (x : Binary64) : String :=
  match x.value with
  | .nan => "NaN"
  | .infinite negative => if negative then "-Inf" else "Inf"
  | .finite _ m q =>
    if Binary64.valueIsIntegral m q && Binary64.truncateValue m q < 10 ^ 15 then
      toString x.toInt64.toInt
    else Binary64.write Binary64.plainStyle x

end Scalar

end Embedding
