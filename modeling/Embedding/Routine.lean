import Embedding.Binary64.Rounding
import Embedding.Dict
import Embedding.Native

/-!
# Routines

A routine writes the body of a sub as a list of steps over named registers. A register holds a list
of cells, empty until a step fills it. The end of the list returns nothing.
-/

namespace Embedding.Routine

/-- Which cells a step works on. -/
inductive Operand
  /-- One argument, or a new undefined scalar if it is missing. -/
  | arg (index : Nat)
  | args
  | argsFrom (index : Nat)
  /-- The cell of that number, whatever it is. -/
  | cell (c : CellId)
  | register (name : String)
  deriving DecidableEq

/-- Where a step takes a text from. -/
inductive Words
  | literal (s : String)
  | of (cell : Operand)
  | source
  deriving DecidableEq

/-- One step. `into` names the register that receives its cells. -/
inductive Step
  | undef (into : String)
  | int (into : String) (n : Int64)
  | num (into : String) (x : Binary64)
  | text (into : String) (s : Words)
  | bytes (into : String) (bytes : List UInt8)
  | bool (into : String) (b : Bool)
  | glob (into name : String)
  | array (into : String) (items : List Operand)
  | hash (into : String) (pairs : List (Words × Operand))
  /-- A hash of the arguments from `index` on, taken in pairs. -/
  | hashOfArgs (into : String) (index : Nat)
  | ref (into : String) (target : Operand)
  | bless (into : String) (c : Operand) (className : Words)
  | subName (into : String)
  | argCount (into : String)
  | context (into : String)
  | intArg (into : String) (index : Nat)
  | numArg (into : String) (index : Nat)
  | textArg (into : String) (index : Nat)
  | addArgs (into : String) (i j : Nat)
  | addConst (into : String) (i : Nat) (k : Int64)
  | divideArgs (into : String) (i j : Nat)
  | liveCells (into : String)
  | textOf (into : String) (c : Operand)
  | numify (into : String) (c : Operand)
  | kindOf (into : String) (c : Operand)
  | classOf (into : String) (c : Operand)
  | derives (into : String) (className parent : Words)
  | join (into : String) (separator : Words) (items : List Operand)
  | fetch (into : String) (c : Operand) (key : Words)
  | element (into : String) (c : Operand) (index : Nat)
  | store (c : Operand) (key : Words) (value : Operand)
  | push (c value : Operand)
  | assign (target value : Operand)
  | length (into : String) (c : Operand)
  | global (into : String) (name : Words)
  | setGlobal (name : Words) (value : Operand)
  | codeRef (into : String) (name : Words)
  | can (into : String) (className method : Words)
  | callSub (into : String) (name : Words) (args : List Operand)
  | callMethod (into : String) (invocant : Operand) (name : Words) (args : List Operand)
  /-- As `callSub`, but a death goes to the register `caught`. -/
  | trySub (into caught : String) (name : Words) (args : List Operand)
  | tryMethod (into caught : String) (invocant : Operand) (name : Words) (args : List Operand)
  | setError (value : Operand)
  | die (message : Words)
  | dieWith (value : Operand)
  | finish (values : List Operand)
  | finishIfZero (index : Nat) (values : List Operand)
  | finishIfMissing (index : Nat) (values : List Operand)
  | dieIfZero (index : Nat) (message : Words)

/-- What a step can see. -/
structure Scope where
  call : Invocation
  source : String
  registers : Dict (List CellId) := []

namespace Scope

def undef : Proc CellId := Proc.perform .newUndef

def cells (scope : Scope) : Operand → Proc (List CellId)
  | .arg index =>
    match scope.call.args[index]? with
    | some c => return [c]
    | none => return [← undef]
  | .args => return scope.call.args
  | .argsFrom index => return scope.call.args.drop index
  | .cell c => return [c]
  | .register name => return (scope.registers.get? name).getD []

def allCells (scope : Scope) : List Operand → Proc (List CellId)
  | [] => return []
  | operand :: operands => do
    let cs ← scope.cells operand
    return cs ++ (← scope.allCells operands)

/-- The first cell of an operand, or a new undefined scalar if it has none. -/
def cell (scope : Scope) (operand : Operand) : Proc CellId := do
  match ← scope.cells operand with
  | c :: _ => return c
  | [] => undef

def words (scope : Scope) : Words → Proc String
  | .literal s => return s
  | .of operand => do Proc.perform (.textOf (← scope.cell operand))
  | .source => return scope.source

def intArg (scope : Scope) (index : Nat) : Proc Int64 :=
  match scope.call.args[index]? with
  | some c => Proc.perform (.intOf c)
  | none => return 0

def numArg (scope : Scope) (index : Nat) : Proc Binary64 :=
  match scope.call.args[index]? with
  | some c => Proc.perform (.numOf c)
  | none => return .zero

def textArg (scope : Scope) (index : Nat) : Proc String :=
  match scope.call.args[index]? with
  | some c => Proc.perform (.textOf c)
  | none => return ""

/-- Keys and values of a list that holds them in turns. -/
def pairsOf : List CellId → Proc (List (String × CellId))
  | key :: value :: cs => do
    let key ← Proc.perform (.textOf key)
    return (key, value) :: (← pairsOf cs)
  | _ => return []

def pairs (scope : Scope) : List (Words × Operand) → Proc (List (String × CellId))
  | [] => return []
  | (key, value) :: rest => do
    let key ← scope.words key
    let value ← scope.cell value
    return (key, value) :: (← scope.pairs rest)

def texts : List CellId → Proc (List String)
  | [] => return []
  | c :: cs => do
    let s ← Proc.perform (.textOf c)
    return s :: (← texts cs)

def orUndef : Option CellId → Proc CellId
  | some c => return c
  | none => undef

end Scope

/-- How a routine goes on after a step. -/
inductive Flow
  | next (registers : Dict (List CellId))
  | finish (values : List CellId)

open Proc in
def Step.run (scope : Scope) (step : Step) : Proc Flow :=
  let into (name : String) (cs : List CellId) : Proc Flow :=
    return .next (scope.registers.insert name cs)
  let one (name : String) (c : CellId) : Proc Flow := into name [c]
  let skip : Proc Flow := return .next scope.registers
  match step with
  | .undef r => do one r (← perform .newUndef)
  | .int r n => do one r (← perform (.newInt n))
  | .num r x => do one r (← perform (.newNum x))
  | .text r s => do one r (← perform (.newText (← scope.words s)))
  | .bytes r bs => do one r (← perform (.newBytes bs))
  | .bool r b => do one r (← perform (.newBool b))
  | .glob r name => do one r (← perform (.newGlob name))
  | .array r items => do one r (← perform (.newArray (← scope.allCells items)))
  | .hash r pairs => do one r (← perform (.newHash (← scope.pairs pairs)))
  | .hashOfArgs r index => do
    one r (← perform (.newHash (← Scope.pairsOf (scope.call.args.drop index))))
  | .ref r target => do one r (← perform (.newRef (← scope.cell target)))
  | .bless r c className => do
    let c ← scope.cell c
    one r (← perform (.bless c (← scope.words className)))
  | .subName r => do one r (← perform (.newText scope.call.name))
  | .argCount r => do one r (← perform (.newInt (Int64.ofNat scope.call.args.length)))
  | .context r => do
    one r (← perform (.newText (match scope.call.context with
      | .void => "void"
      | .scalar => "scalar"
      | .list => "list")))
  | .intArg r index => do one r (← perform (.newInt (← scope.intArg index)))
  | .numArg r index => do one r (← perform (.newNum (← scope.numArg index)))
  | .textArg r index => do one r (← perform (.newText (← scope.textArg index)))
  | .addArgs r i j => do
    let a ← scope.intArg i
    let b ← scope.intArg j
    one r (← perform (.newInt (a + b)))
  | .addConst r i k => do one r (← perform (.newInt ((← scope.intArg i) + k)))
  | .divideArgs r i j => do
    let x ← scope.numArg i
    let y ← scope.numArg j
    one r (← perform (.newNum (x.divide y)))
  | .liveCells r => do
    let n ← perform .liveCells
    one r (← perform (.newInt (Int64.ofNat n)))
  | .textOf r c => do
    let s ← perform (.textOf (← scope.cell c))
    one r (← perform (.newText s))
  | .numify r c => do
    let x ← perform (.numify (← scope.cell c))
    one r (← perform (.newNum x))
  | .kindOf r c => do
    match ← perform (.kindOf (← scope.cell c)) with
    | some kind => one r (← perform (.newText kind.display))
    | none => one r (← Scope.undef)
  | .classOf r c => do
    match ← perform (.classOf (← scope.cell c)) with
    | some className => one r (← perform (.newText className))
    | none => one r (← Scope.undef)
  | .derives r className parent => do
    let className ← scope.words className
    let parent ← scope.words parent
    let b ← perform (.derives className parent)
    one r (← perform (.newBool b))
  | .join r separator items => do
    let separator ← scope.words separator
    let texts ← Scope.texts (← scope.allCells items)
    one r (← perform (.newText (separator.intercalate texts)))
  | .fetch r c key => do
    let c ← scope.cell c
    let key ← scope.words key
    one r (← Scope.orUndef (← perform (.fetch c key)))
  | .element r c index => do
    let c ← scope.cell c
    one r (← Scope.orUndef (← perform (.element c index)))
  | .store c key value => do
    let c ← scope.cell c
    let value ← scope.cell value
    let key ← scope.words key
    perform (.store c key value)
    skip
  | .push c value => do
    let c ← scope.cell c
    let value ← scope.cell value
    perform (.push c value)
    skip
  | .assign target value => do
    let target ← scope.cell target
    let value ← scope.cell value
    perform (.assign target value)
    skip
  | .length r c => do
    let n ← perform (.length (← scope.cell c))
    one r (← perform (.newInt (Int64.ofNat n)))
  | .global r name => do one r (← perform (.global (← scope.words name)))
  | .setGlobal name value => do
    let name ← scope.words name
    let value ← scope.cell value
    perform (.setGlobal name value)
    skip
  | .codeRef r name => do
    one r (← Scope.orUndef (← perform (.codeRef (← scope.words name))))
  | .can r className method => do
    let className ← scope.words className
    let method ← scope.words method
    one r (← Scope.orUndef (← perform (.can className method)))
  | .callSub r name args => do
    let name ← scope.words name
    into r (← perform (.call (.named name) (← scope.allCells args)))
  | .callMethod r invocant name args => do
    let invocant ← scope.cell invocant
    let name ← scope.words name
    into r (← perform (.call (.method invocant name) (← scope.allCells args)))
  | .trySub r caught name args => do
    let name ← scope.words name
    catching r caught (.named name) (← scope.allCells args)
  | .tryMethod r caught invocant name args => do
    let invocant ← scope.cell invocant
    let name ← scope.words name
    catching r caught (.method invocant name) (← scope.allCells args)
  | .setError value => do
    perform (.setError (← scope.cell value))
    skip
  | .die message => do Proc.fail (← scope.words message)
  | .dieWith value => do .die (← scope.cell value)
  | .finish values => do return .finish (← scope.allCells values)
  | .finishIfZero index values => do
    if (← scope.intArg index) = 0 then return .finish (← scope.allCells values) else skip
  | .finishIfMissing index values => do
    if scope.call.args[index]?.isNone then return .finish (← scope.allCells values) else skip
  | .dieIfZero index message => do
    if (← scope.numArg index).isZero then Proc.fail (← scope.words message) else skip
where
  /-- Calls, and keeps either the results or the cell that the call died with. -/
  catching (r caught : String) (target : Target CellId) (args : List CellId) : Proc Flow := do
    let (values, error) := match ← attempt (.call target args) with
      | .ok values => (values, [])
      | .error value => ([], [value])
    return .next ((scope.registers.insert r values).insert caught error)

def run (scope : Scope) : List Step → Proc (List CellId)
  | [] => return []
  | step :: steps => do
    match ← step.run scope with
    | .next registers => run { scope with registers } steps
    | .finish values => return values

/-- The body of a sub that takes the steps. -/
def body (steps : List Step) : NativeSub := fun call => run { call, source := "" } steps

/-- An evaluator that takes the steps for every source text. -/
def evaluator (steps : List Step) : Evaluator := fun source call => run { call, source } steps

end Embedding.Routine
