import Embedding.Dict
import Embedding.Native
import Embedding.Binary64.Shortest
import Embedding.Text.Quoted

/-!
# Package definitions

A package definition says what loading the package brings into an interpreter.
-/

namespace Embedding

/-- The initial value of a package scalar. -/
inductive Literal
  | undef
  | int (n : Int64)
  | num (x : Binary64)
  | text (s : String)
  deriving DecidableEq

structure Package where
  name : String
  /-- The parents, for `@ISA`. -/
  isa : List String := []
  subs : List (String × NativeSub) := []
  scalars : List (String × Literal) := []
  /-- Why the package does not compile. -/
  compileError : Option String := none

namespace Package

def bracketed (items : List String) : String := "[" ++ ", ".intercalate items ++ "]"

def listLiteral : Literal → String
  | .undef => "Undef"
  | .int n => s!"Int({n.toInt})"
  | .num x => s!"Num({Binary64.write Binary64.listingStyle x})"
  | .text s => s!"Str({Quoted.quote s})"

/-- The definition on one line, without the bodies of its subs. -/
def listing (p : Package) : String :=
  let scalars := p.scalars.map fun (name, value) => s!"({Quoted.quote name}, {listLiteral value})"
  let compileError := match p.compileError with
    | some text => s!"Some({Quoted.quote text})"
    | none => "None"
  "PackageDef \x7b " ++ ", ".intercalate [
    s!"name: {Quoted.quote p.name}",
    s!"isa: {bracketed (p.isa.map Quoted.quote)}",
    s!"subs: {bracketed (p.subs.map fun sub => Quoted.quote sub.1)}",
    s!"scalars: {bracketed scalars}",
    s!"compile_error: {compileError}"] ++ " \x7d"

end Package

end Embedding
