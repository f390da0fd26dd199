import Embedding.Name
import Embedding.Native

/-!
# Requests

What a host can ask of an interpreter, as data. The shape of a request is the shape of its answer,
and the cells in the answer are stakes of the host.
-/

namespace Embedding

inductive Operation
  | construct | eval | require | call | takeError
  | retain | release | refcount
  | kind | flags | toInt | toNum | toBytes
  | newUndef | newBool | newInt | newNum | newBytes
  | assign | newRef | deref | className | identity
  | newArray | arrayLength | arrayFetch | arrayStore | arrayPop | arrayClear
  | newHash | hashLength | hashFetch | hashStore | hashDelete | hashContains | hashClear
  | hashRewind | hashNext
  | global (slot : Slot)
  deriving DecidableEq

/-- A request, where `κ` stands for a cell. -/
inductive Request (κ : Type) : Shape → Type
  | construct (args : List String) : Request κ .nothing
  | eval (source : String) (context : Context) : Request κ .cells
  | require (package : String) : Request κ .nothing
  | call (target : Target κ) (args : List κ) (context : Context) : Request κ .cells
  | takeError : Request κ .cellIfAny
  | retain (c : κ) : Request κ .nothing
  | release (c : κ) : Request κ .nothing
  | refcount (c : κ) : Request κ .size
  | kind (c : κ) : Request κ .kind
  | flags (c : κ) : Request κ .flags
  | toInt (c : κ) : Request κ .int
  | toNum (c : κ) : Request κ .num
  | toBytes (c : κ) : Request κ .bytes
  | newUndef : Request κ .cell
  | newBool (b : Bool) : Request κ .cell
  | newInt (n : Int64) : Request κ .cell
  | newNum (x : Binary64) : Request κ .cell
  | newBytes (bytes : List UInt8) (utf8 : Bool) : Request κ .cell
  | assign (dst src : κ) : Request κ .nothing
  | newRef (target : κ) : Request κ .cell
  | deref (c : κ) : Request κ .cell
  | className (c : κ) : Request κ .className
  | identity (c : κ) : Request κ .address
  | newArray : Request κ .cell
  | arrayLength (c : κ) : Request κ .size
  | arrayFetch (c : κ) (index : Nat) : Request κ .cellIfAny
  | arrayStore (c : κ) (index : Nat) (value : κ) : Request κ .nothing
  | arrayPop (c : κ) : Request κ .cellIfAny
  | arrayClear (c : κ) : Request κ .nothing
  | newHash : Request κ .cell
  | hashLength (c : κ) : Request κ .size
  | hashFetch (c : κ) (key : String) : Request κ .cellIfAny
  | hashStore (c : κ) (key : String) (value : κ) : Request κ .nothing
  | hashDelete (c : κ) (key : String) : Request κ .cellIfAny
  | hashContains (c : κ) (key : String) : Request κ .truth
  | hashClear (c : κ) : Request κ .nothing
  | hashRewind (c : κ) : Request κ .nothing
  | hashNext (c : κ) : Request κ .entryIfAny
  /-- The cell that a name stands for. With `create`, a variable that is not there is made. -/
  | global (slot : Slot) (name : String) (create : Bool) : Request κ .cellIfAny

namespace Request
variable {κ ι : Type}

def operation : {s : Shape} → Request κ s → Operation
  | _, .construct _ => .construct
  | _, .eval .. => .eval
  | _, .require _ => .require
  | _, .call .. => .call
  | _, .takeError => .takeError
  | _, .retain _ => .retain
  | _, .release _ => .release
  | _, .refcount _ => .refcount
  | _, .kind _ => .kind
  | _, .flags _ => .flags
  | _, .toInt _ => .toInt
  | _, .toNum _ => .toNum
  | _, .toBytes _ => .toBytes
  | _, .newUndef => .newUndef
  | _, .newBool _ => .newBool
  | _, .newInt _ => .newInt
  | _, .newNum _ => .newNum
  | _, .newBytes .. => .newBytes
  | _, .assign .. => .assign
  | _, .newRef _ => .newRef
  | _, .deref _ => .deref
  | _, .className _ => .className
  | _, .identity _ => .identity
  | _, .newArray => .newArray
  | _, .arrayLength _ => .arrayLength
  | _, .arrayFetch .. => .arrayFetch
  | _, .arrayStore .. => .arrayStore
  | _, .arrayPop _ => .arrayPop
  | _, .arrayClear _ => .arrayClear
  | _, .newHash => .newHash
  | _, .hashLength _ => .hashLength
  | _, .hashFetch .. => .hashFetch
  | _, .hashStore .. => .hashStore
  | _, .hashDelete .. => .hashDelete
  | _, .hashContains .. => .hashContains
  | _, .hashClear _ => .hashClear
  | _, .hashRewind _ => .hashRewind
  | _, .hashNext _ => .hashNext
  | _, .global slot .. => .global slot

def targetCells : Target κ → List κ
  | .code c => [c]
  | .named _ => []
  | .method invocant _ => [invocant]

def cells : {s : Shape} → Request κ s → List κ
  | _, .call target args _ => targetCells target ++ args
  | _, .assign dst src => [dst, src]
  | _, .arrayStore c _ value | _, .hashStore c _ value => [c, value]
  | _, .retain c | _, .release c | _, .refcount c | _, .kind c | _, .flags c | _, .toInt c
  | _, .toNum c | _, .toBytes c | _, .newRef c | _, .deref c | _, .className c | _, .identity c
  | _, .arrayLength c | _, .arrayFetch c _ | _, .arrayPop c | _, .arrayClear c
  | _, .hashLength c | _, .hashFetch c _ | _, .hashDelete c _ | _, .hashContains c _
  | _, .hashClear c | _, .hashRewind c | _, .hashNext c => [c]
  | _, .construct _ | _, .eval .. | _, .require _ | _, .takeError | _, .newUndef | _, .newBool _
  | _, .newInt _ | _, .newNum _ | _, .newBytes .. | _, .newArray | _, .newHash
  | _, .global .. => []

def mapTarget (f : κ → ι) : Target κ → Target ι
  | .code c => .code (f c)
  | .named name => .named name
  | .method invocant name => .method (f invocant) name

def map (f : κ → ι) : {s : Shape} → Request κ s → Request ι s
  | _, .construct args => .construct args
  | _, .eval source context => .eval source context
  | _, .require package => .require package
  | _, .call target args context => .call (mapTarget f target) (args.map f) context
  | _, .takeError => .takeError
  | _, .retain c => .retain (f c)
  | _, .release c => .release (f c)
  | _, .refcount c => .refcount (f c)
  | _, .kind c => .kind (f c)
  | _, .flags c => .flags (f c)
  | _, .toInt c => .toInt (f c)
  | _, .toNum c => .toNum (f c)
  | _, .toBytes c => .toBytes (f c)
  | _, .newUndef => .newUndef
  | _, .newBool b => .newBool b
  | _, .newInt n => .newInt n
  | _, .newNum x => .newNum x
  | _, .newBytes bytes utf8 => .newBytes bytes utf8
  | _, .assign dst src => .assign (f dst) (f src)
  | _, .newRef target => .newRef (f target)
  | _, .deref c => .deref (f c)
  | _, .className c => .className (f c)
  | _, .identity c => .identity (f c)
  | _, .newArray => .newArray
  | _, .arrayLength c => .arrayLength (f c)
  | _, .arrayFetch c index => .arrayFetch (f c) index
  | _, .arrayStore c index value => .arrayStore (f c) index (f value)
  | _, .arrayPop c => .arrayPop (f c)
  | _, .arrayClear c => .arrayClear (f c)
  | _, .newHash => .newHash
  | _, .hashLength c => .hashLength (f c)
  | _, .hashFetch c key => .hashFetch (f c) key
  | _, .hashStore c key value => .hashStore (f c) key (f value)
  | _, .hashDelete c key => .hashDelete (f c) key
  | _, .hashContains c key => .hashContains (f c) key
  | _, .hashClear c => .hashClear (f c)
  | _, .hashRewind c => .hashRewind (f c)
  | _, .hashNext c => .hashNext (f c)
  | _, .global slot name create => .global slot name create

theorem cells_map (f : κ → ι) {s : Shape} (r : Request κ s) : (r.map f).cells = r.cells.map f := by
  cases r with
  | call target args context => cases target <;> simp [map, mapTarget, cells, targetCells]
  | _ => rfl

end Request

end Embedding
