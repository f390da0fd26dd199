import Embedding.Interpreter

/-!
# Engines

A session runs on an engine: an interpreter some of whose operations may have been given fixed
answers, which they then give in its place.
-/

namespace Embedding

inductive FixedAnswer
  | fault (f : Fault)
  /-- Nothing, of an operation that may have nothing to answer. -/
  | absent
  | bytes (bytes : List UInt8)
  | flags (flags : Flags)
  | kind (kind : Kind)

/-- The answer in a shape, if the shape has room for it. -/
def FixedAnswer.within? : (s : Shape) → FixedAnswer → Option (Except Fault (Answer CellId s))
  | _, .fault f => some (.error f)
  | .className, .absent => some (.ok none)
  | .cellIfAny, .absent => some (.ok none)
  | .entryIfAny, .absent => some (.ok none)
  | .bytes, .bytes bs => some (.ok bs)
  | .flags, .flags fs => some (.ok fs)
  | .kind, .kind k => some (.ok k)
  | _, _ => none

structure Engine where
  interpreter : Interpreter
  fixed : List (Operation × FixedAnswer) := []

namespace Engine

def fix (e : Engine) (operation : Operation) (answer : Option FixedAnswer) : Engine :=
  let others := e.fixed.filter fun entry => entry.1 ≠ operation
  { e with fixed := (answer.map fun a => (operation, a)).toList ++ others }

def fixedAnswer? (e : Engine) {s : Shape} (request : Request CellId s) :
    Option (Except Fault (Answer CellId s)) := do
  let answer ← e.fixed.lookup request.operation
  answer.within? s

def perform {s : Shape} (request : Request CellId s) (e : Engine) :
    Except Fault (Answer CellId s) × Engine :=
  match e.fixedAnswer? request with
  | some answer => (answer, e)
  | none =>
    let ⟨interpreter, fixed⟩ := e
    let (answer, interpreter) := interpreter.perform request
    (answer, ⟨interpreter, fixed⟩)

end Engine

end Embedding
