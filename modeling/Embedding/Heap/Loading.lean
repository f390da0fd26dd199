import Embedding.Frame
import Embedding.Setup
import Embedding.Universal

/-!
# Loading packages
-/

namespace Embedding.Heap

def storeTexts (array : CellId) : (index : Nat) → List String → HeapM Unit
  | _, [] => return
  | index, s :: texts => do
    let c ← newScalar (.ofText s)
    arrayStore array index c
    release c
    storeTexts array (index + 1) texts

def variableCell (slot : Slot) (name : String) : HeapM CellId := do
  match ← global slot name true with
  | some c => return c
  | none => throw .notConstructed

def literalScalar : Literal → Embedding.Scalar
  | .undef => .undef
  | .int n => .ofInt n
  | .num x => .ofNum x
  | .text s => .ofText s

def install (p : Package) : HeapM Unit := do
  p.subs.forM fun (name, body) => defineSub (Name.member p.name name) body
  p.scalars.forM fun (name, literal) => do
    let c ← variableCell .scalar (Name.member p.name name)
    let value ← newScalar (literalScalar literal)
    assign c value
    release value
    release c
  if p.isa ≠ [] then
    let isa ← variableCell .array (Name.member p.name "ISA")
    arrayClear isa
    storeTexts isa 0 p.isa
    release isa
  markLoaded p.name

/-- The directories that the switches `-I` among the arguments name. -/
def includePaths : List String → List String
  | [] => []
  | arg :: args =>
    if arg = "-I" then
      match args with
      | [] => []
      | path :: args => path :: includePaths args
    else
      match arg.toList with
      | '-' :: 'I' :: path => String.ofList path :: includePaths args
      | _ => includePaths args

/-- What an interpreter does with its first heap. -/
def boot (setup : Setup) (args : List String) : HeapM Unit := do
  let inc ← variableCell .array "INC"
  storeTexts inc 0 (includePaths args)
  release inc
  defineSub "UNIVERSAL::isa" Universal.isa
  defineSub "UNIVERSAL::can" Universal.can
  setup.preloaded.forM fun name =>
    match setup.provided.get? name with
    | some p => install p
    | none => return

def require (setup : Setup) (package : String) : HeapM Unit := do
  if (← get).isLoaded package then return
  match setup.provided.get? package with
  | some p =>
    match p.compileError with
    | some diagnostic => die s!"{diagnostic}\nCompilation failed in require"
    | none => install p
  | none =>
    let paths := " ".intercalate ((← get).arrayStrings "INC")
    die s!"Can't locate {Name.moduleFile package} in @INC (you may need to install the {package} module) (@INC contains: {paths})"

end Embedding.Heap
