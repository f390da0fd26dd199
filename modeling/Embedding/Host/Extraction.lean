import Embedding.Host.Container

/-!
# Typed extraction

A value can be taken as a value of a type, if it fits. Lists and mappings fit whether they are plain
data or views.
-/

namespace Embedding

open HostM (holding orRelease)

/-- The types that values can be taken as. -/
inductive HostType
  | unit
  | bool
  | int64
  | int32
  | size
  | float
  | text
  | bytes
  | value
  | array
  | hash
  | callable
  | object
  /-- `nothing`, or a value of the type. -/
  | option (t : HostType)
  | list (t : HostType)
  | map (t : HostType)
  deriving DecidableEq

namespace HostType

/-- The values of a type. -/
@[reducible] def Carrier : HostType → Type
  | .unit => Unit
  | .bool => Bool
  | .int64 => Int64
  | .int32 => Int32
  | .size => Nat
  | .float => Binary64
  | .text => String
  | .bytes => List UInt8
  | .value => Value
  | .array => ArrayView
  | .hash => HashView
  | .callable => Callable
  | .object => ObjectView
  | .option t => Option t.Carrier
  | .list t => List t.Carrier
  | .map t => Dict t.Carrier

def toValue : (t : HostType) → t.Carrier → Value
  | .unit, _ => .nothing
  | .bool, b => .bool b
  | .int64, n => .int n
  | .int32, n => .int n.toInt64
  | .size, n => .int (Int64.ofNat n)
  | .float, x => .float x
  | .text, s => .text s
  | .bytes, bs => .bytes bs
  | .value, v => v
  | .array, view => .array view
  | .hash, view => .hash view
  | .callable, target => .callable target
  | .object, view => .object view
  | .option _, none => .nothing
  | .option t, some a => t.toValue a
  | .list t, as => .list (List.map t.toValue as)
  | .map t, entries => .mapping (List.map (fun e => (e.1, t.toValue e.2)) entries)

def handles (t : HostType) (a : t.Carrier) : List Handle := (t.toValue a).handles

end HostType

namespace Value

/-- The integer that a value is. A floating-point number must have no fractional part; beyond the
words it counts as the nearest of them. -/
def toInt64 : Value → Except HostError Int64
  | .int n => .ok n
  | .bool b => .ok (if b then 1 else 0)
  | .float x => if x.isIntegral then .ok x.toInt64 else .error (.mismatch "int" "float")
  | v => .error (.mismatch "int" v.typeName)

def outOfRange (target : String) (n : Int64) : HostError :=
  .conversion "int" target s!"{n.toInt} out of range"

def toInt32 (v : Value) : Except HostError Int32 := do
  let n ← v.toInt64
  if -2 ^ 31 ≤ n.toInt ∧ n.toInt < 2 ^ 31 then .ok n.toInt32 else .error (outOfRange "i32" n)

def toSize (v : Value) : Except HostError Nat := do
  let n ← v.toInt64
  if 0 ≤ n.toInt then .ok n.toInt.toNat else .error (outOfRange "usize" n)

def toBool : Value → Except HostError Bool
  | .bool b => .ok b
  | .int n => .ok (n ≠ 0)
  | .nothing => .ok false
  | v => .error (.mismatch "bool" v.typeName)

/-- The text that a value is. A byte string must be well formed. -/
def toText : Value → Except HostError String
  | .text s => .ok s
  | .bytes bs =>
    match Utf8.decode bs with
    | .ok s => .ok s
    | .error fault => .error (.conversion "bytes" "str" fault.message)
  | v => .error (.mismatch "str" v.typeName)

/-- The part of a value that `read` takes, or a mismatch. -/
def require {α : Type} (expected : String) (read : Value → Option α) (v : Value) :
    Except HostError α :=
  match read v with
  | some a => .ok a
  | none => .error (.mismatch expected v.typeName)

end Value

/-- Applies an extraction to items, up to the first that it fails on. -/
def extractItems (t : HostType) (extract : Value → HostM t.Carrier) :
    List Value → HostM (List t.Carrier)
  | [] => return []
  | v :: vs => do
    let a ← extract v
    let as ← orRelease (t.handles a) (extractItems t extract vs)
    return a :: as

/-- Applies an extraction to the values of entries, up to the first that it fails on. -/
def extractEntries (t : HostType) (extract : Value → HostM t.Carrier) :
    List (String × Value) → HostM (Dict t.Carrier)
  | [] => return []
  | (key, v) :: entries => do
    let a ← extract v
    let as ← orRelease (t.handles a) (extractEntries t extract entries)
    return (key, a) :: as

/-- Takes a value as a value of a type. Views that are taken are clones. -/
def Value.extract : (t : HostType) → Value → HostM t.Carrier
  | .unit, .nothing => return ()
  | .unit, v => throw (.mismatch "none" v.typeName)
  | .bool, v => ofExcept v.toBool
  | .int64, v => ofExcept v.toInt64
  | .int32, v => ofExcept v.toInt32
  | .size, v => ofExcept v.toSize
  | .float, v => ofExcept (v.require "float" Value.float?)
  | .text, v => ofExcept v.toText
  | .bytes, v => ofExcept (v.require "bytes" Value.bytes?)
  | .value, v => do
    HostM.clone v.handles
    return v
  | .array, .array view => do
    HostM.clone [view.cell]
    return view
  | .array, v => throw (.mismatch "array" v.typeName)
  | .hash, .hash view => do
    HostM.clone [view.cell]
    return view
  | .hash, v => throw (.mismatch "hash" v.typeName)
  | .callable, .callable target => do
    HostM.clone [target.anchor]
    return target
  | .callable, v => throw (.mismatch "callable" v.typeName)
  | .object, .object view => do
    HostM.clone [view.reference]
    return view
  | .object, v => throw (.mismatch "object" v.typeName)
  | .option _, .nothing => return none
  | .option t, v => some <$> v.extract t
  | .list t, .list items => extractItems t (Value.extract t) items
  | .list t, .array view => do
    let items ← view.toList
    holding (Value.handlesOfItems items) (extractItems t (Value.extract t) items)
  | .list _, v => throw (.mismatch "list" v.typeName)
  | .map t, .mapping entries => extractEntries t (Value.extract t) entries
  | .map t, .hash view => do
    let entries ← view.toDict
    holding (Value.handlesOfEntries entries) (extractEntries t (Value.extract t) entries)
  | .map _, v => throw (.mismatch "mapping" v.typeName)

end Embedding
