/-!
# Names of symbols

A symbol has a qualified name, package and symbol joined by a double colon. A name without a package
belongs to `main`. The host may put a sigil in front that says which of the symbols of that name it
means.
-/

namespace Embedding

/-- The things that one name can stand for. -/
inductive Slot
  | scalar
  | array
  | hash
  | code
  deriving DecidableEq

namespace Name

def hasPackage : List Char → Bool
  | ':' :: ':' :: _ => true
  | _ :: cs => hasPackage cs
  | [] => false

/-- The name without one double colon in front. -/
def stripMain : List Char → List Char
  | ':' :: ':' :: cs => cs
  | cs => cs

/-- A name with a package as it stands, any other as a name of `package`. -/
def within (package : String) (name : List Char) : String :=
  if hasPackage name then String.ofList name else package ++ "::" ++ String.ofList name

def qualify (name : String) : String := within "main" (stripMain name.toList)

/-- The sigil in front of a name and the rest of it. -/
def splitSigil : List Char → Option Slot × List Char
  | '$' :: cs => (some .scalar, cs)
  | '@' :: cs => (some .array, cs)
  | '%' :: cs => (some .hash, cs)
  | '&' :: cs => (some .code, cs)
  | cs => (none, cs)

def sigil : Slot → Char
  | .scalar => '$'
  | .array => '@'
  | .hash => '%'
  | .code => '&'

/-- The slot and the qualified name that a name with or without a sigil stands for. A bare name is a
scalar. -/
def parseGlobal (name : String) : Slot × String :=
  let (slot, bare) := splitSigil name.toList
  (slot.getD .scalar, within "main" (stripMain bare))

/-- A name with or without a sigil, as seen from inside a package. -/
def qualifyIn (package name : String) : String :=
  let (slot, bare) := splitSigil name.toList
  let qualified := within package bare
  match slot with
  | some s => String.ofList [sigil s] ++ qualified
  | none => qualified

def stripAmpersand (name : String) : String :=
  match name.toList with
  | '&' :: cs => String.ofList cs
  | _ => name

def member (package symbol : String) : String := package ++ "::" ++ symbol

/-- Every double colon, from left to right, as a slash. -/
def slashed : List Char → List Char
  | ':' :: ':' :: cs => '/' :: slashed cs
  | c :: cs => c :: slashed cs
  | [] => []

def moduleFile (package : String) : String := String.ofList (slashed package.toList) ++ ".pm"

end Name

end Embedding
