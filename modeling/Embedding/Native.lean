import Embedding.Answer

/-!
# Native subs

The body of a sub is a procedure: it acts on the interpreter through its frame, one action at a
time, and goes on with each answer. Every cell an action hands to it is a temporary of the frame.
-/

namespace Embedding

/-- What a call does with the values a sub returns. -/
inductive Context
  /-- Drops them. -/
  | void
  /-- Keeps the last one. -/
  | scalar
  /-- Keeps all. -/
  | list
  deriving DecidableEq

/-- What is called, where `κ` stands for a cell. -/
inductive Target (κ : Type)
  /-- A code cell, or a reference to one. -/
  | code (cell : κ)
  | named (name : String)
  /-- The sub that the invocant's class resolves the name to. -/
  | method (invocant : κ) (name : String)
  deriving DecidableEq

/-- What the body of a sub can do in its frame, by the shape of the answer. Actions on cells take a
reference for its target where they need an array or a hash. -/
inductive Action : Shape → Type
  | liveCells : Action .size
  /-- The cell as an integer, 0 where it cannot be read. -/
  | intOf (c : CellId) : Action .int
  /-- The cell as a floating-point number, 0 where it cannot be read. -/
  | numOf (c : CellId) : Action .num
  /-- The cell as text, with U+FFFD for bytes that are none, empty where it cannot be read. -/
  | textOf (c : CellId) : Action .text
  /-- Uses the cell as a number, which a string remembers. -/
  | numify (c : CellId) : Action .num
  | kindOf (c : CellId) : Action .kindIfLive
  | classOf (c : CellId) : Action .className
  | derives (className parent : String) : Action .truth
  | newUndef : Action .cell
  | newInt (n : Int64) : Action .cell
  | newNum (x : Binary64) : Action .cell
  | newText (s : String) : Action .cell
  | newBytes (bytes : List UInt8) : Action .cell
  | newBool (b : Bool) : Action .cell
  | newGlob (name : String) : Action .cell
  /-- A reference to a new array of copies. -/
  | newArray (items : List CellId) : Action .cell
  /-- A reference to a new hash of copies. -/
  | newHash (pairs : List (String × CellId)) : Action .cell
  | newRef (target : CellId) : Action .cell
  /-- Blesses the target of a reference and answers the reference. -/
  | bless (c : CellId) (className : String) : Action .address
  | fetch (c : CellId) (key : String) : Action .cellIfAny
  | store (c : CellId) (key : String) (value : CellId) : Action .nothing
  | assign (target value : CellId) : Action .nothing
  | element (c : CellId) (index : Nat) : Action .cellIfAny
  | push (c : CellId) (value : CellId) : Action .nothing
  /-- The length of an array or a hash, 0 of anything else. -/
  | length (c : CellId) : Action .size
  | global (name : String) : Action .cell
  | setGlobal (name : String) (value : CellId) : Action .nothing
  /-- A reference to a sub. -/
  | codeRef (name : String) : Action .cellIfAny
  /-- A reference to the sub that a method of a class resolves to. -/
  | can (className method : String) : Action .cellIfAny
  | call (target : Target CellId) (args : List CellId) : Action .cells
  | setError (value : CellId) : Action .nothing
  /-- A new text cell to die with. -/
  | message (s : String) : Action .cell

/-- A procedure that ends with a result or dies with a cell. -/
inductive Proc (α : Type) : Type
  | done (result : α)
  | die (value : CellId)
  /-- Acts, and goes on with the answer or with the cell that the action died with. -/
  | act {s : Shape} (action : Action s) (next : Except CellId (Answer CellId s) → Proc α)

namespace Proc
variable {α β : Type}

def bind : Proc α → (α → Proc β) → Proc β
  | .done a, f => f a
  | .die value, _ => .die value
  | .act action next, f => .act action fun answer => (next answer).bind f

instance : Monad Proc where
  pure := .done
  bind := .bind

/-- Acts, and dies if the action dies. -/
def perform {s : Shape} (action : Action s) : Proc (Answer CellId s) :=
  .act action fun
    | .ok answer => .done answer
    | .error value => .die value

/-- Acts, and catches the cell that the action dies with. -/
def attempt {s : Shape} (action : Action s) : Proc (Except CellId (Answer CellId s)) :=
  .act action .done

def fail (s : String) : Proc α :=
  .act (.message s) fun
    | .ok value => .die value
    | .error value => .die value

end Proc

structure Invocation where
  name : String
  args : List CellId
  context : Context

/-- The body of a sub: it ends with the cells that it returns. -/
abbrev NativeSub := Invocation → Proc (List CellId)

/-- Runs source text as the body of a sub. -/
abbrev Evaluator := String → NativeSub

end Embedding
