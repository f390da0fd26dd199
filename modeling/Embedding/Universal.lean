import Embedding.Native

/-!
# The subs that all classes have
-/

namespace Embedding

namespace Universal

/-- The class that an invocant names: its package, or its text. -/
def classOf (invocant : CellId) : Proc String := do
  match ← Proc.perform (.classOf invocant) with
  | some className => return className
  | none => Proc.perform (.textOf invocant)

/-- The text of an argument, empty if it is missing. -/
def textArg (call : Invocation) (index : Nat) : Proc String :=
  match call.args[index]? with
  | some c => Proc.perform (.textOf c)
  | none => return ""

def isa : NativeSub := fun call => do
  match call.args[0]? with
  | none => return [← Proc.perform (.newBool false)]
  | some invocant =>
    let className ← classOf invocant
    let parent ← textArg call 1
    let answer ← Proc.perform (.derives className parent)
    return [← Proc.perform (.newBool answer)]

/-- The sub that the method which the argument names resolves to in the invocant's class. -/
def can : NativeSub := fun call => do
  match call.args[0]? with
  | none => return [← Proc.perform .newUndef]
  | some invocant =>
    let className ← classOf invocant
    let method ← textArg call 1
    match ← Proc.perform (.can className method) with
    | some code => return [code]
    | none => return [← Proc.perform .newUndef]

end Universal

end Embedding
