import Embedding.Heap.Loading
import Embedding.Request

/-!
# The interpreter

An interpreter has a heap while it is running. It answers requests; none but the one to construct it
succeeds before it runs.
-/

namespace Embedding

namespace Heap

def answer (setup : Setup) : {s : Shape} → Request CellId s → HeapM (Answer CellId s)
  | _, .construct _ => throw (.unsupported "interpreter is already constructed")
  | _, .eval source context =>
    match setup.evaluator with
    | some evaluator => eval evaluator source context
    | none => die "Can't evaluate source: no source evaluator is installed"
  | _, .require package => require setup package
  | _, .call target args context => call target args context
  | _, .takeError => takeError
  | _, .retain c => retain c
  | _, .release c => release c
  | _, .refcount c => query (·.refcount c)
  | _, .kind c => query (·.kind c)
  | _, .flags c => query (·.flags c)
  | _, .toInt c => query (·.toInt c)
  | _, .toNum c => query (·.toNum c)
  | _, .toBytes c => query (·.toBytes c)
  | _, .newUndef => newScalar .undef
  | _, .newBool b => newScalar (.ofBool b)
  | _, .newInt n => newScalar (.ofInt n)
  | _, .newNum x => newScalar (.ofNum x)
  | _, .newBytes bytes utf8 => newScalar (.ofBytes bytes utf8)
  | _, .assign dst src => assign dst src
  | _, .newRef target => newRef target
  | _, .deref c => deref c
  | _, .className c => query (·.className c)
  | _, .identity c => query (·.identity c)
  | _, .newArray => alloc (.array #[])
  | _, .arrayLength c => query (·.arrayLength c)
  | _, .arrayFetch c index => arrayFetch c index
  | _, .arrayStore c index value => arrayStore c index value
  | _, .arrayPop c => arrayPop c
  | _, .arrayClear c => arrayClear c
  | _, .newHash => alloc (.hash [] 0)
  | _, .hashLength c => query (·.hashLength c)
  | _, .hashFetch c key => hashFetch c key
  | _, .hashStore c key value => hashStore c key value
  | _, .hashDelete c key => hashDelete c key
  | _, .hashContains c key => query (·.hashContains c key)
  | _, .hashClear c => hashClear c
  | _, .hashRewind c => hashRewind c
  | _, .hashNext c => hashNext c
  | _, .global slot name create => global slot name create

end Heap

structure Interpreter where
  setup : Setup := {}
  /-- The heap, while the interpreter is running. -/
  heap : Option Heap := none

namespace Interpreter

def isConstructed (i : Interpreter) : Bool := i.heap.isSome

def liveCells (i : Interpreter) : Nat := (i.heap.map Heap.liveCells).getD 0

/-- Ends the interpreter and all its cells. -/
def destruct (i : Interpreter) : Interpreter := { i with heap := none }

def perform {s : Shape} (request : Request CellId s) (i : Interpreter) :
    Except Fault (Answer CellId s) × Interpreter :=
  match i, request with
  | ⟨setup, some h⟩, request =>
    let (answer, h) := (Heap.answer setup request).run h
    (answer, ⟨setup, some h⟩)
  | ⟨setup, none⟩, .construct args =>
    match (Heap.boot setup args).run Heap.initial with
    | (.ok (), h) => (.ok (), ⟨setup, some h⟩)
    | (.error fault, _) => (.error fault, ⟨setup, none⟩)
  | ⟨setup, none⟩, _ => (.error .notConstructed, ⟨setup, none⟩)

end Interpreter

end Embedding
