import Embedding.Heap.Container

/-!
# Symbols and classes

Names of cells, and the search for methods through the parents that packages list in their arrays
`@ISA`.
-/

namespace Embedding

/-- What a variable that is first named holds. -/
def Content.fresh? : Slot → Option Content
  | .scalar => some (.scalar .undef)
  | .array => some (.array #[])
  | .hash => some (.hash [] 0)
  | .code => none

namespace Heap

def symbol? (h : Heap) (slot : Slot) (qualified : String) : Option CellId :=
  (h.symbols.table slot).get? qualified

/-- The cell that a name stands for, with a count on it. With `create`, a variable that is not there
is made. -/
def global (slot : Slot) (name : String) (create : Bool) : HeapM (Option CellId) := do
  let qualified := Name.qualify name
  match (← get).symbol? slot qualified with
  | some c =>
    retain c
    return some c
  | none =>
    match if create then Content.fresh? slot else none with
    | some content =>
      let c ← alloc content
      modify fun h => { h with symbols := h.symbols.define slot qualified c }
      retain c
      return some c
    | none => return none

/-- Names a new sub, in place of the one that had the name before. -/
def defineSub (name : String) (body : NativeSub) : HeapM Unit := do
  let qualified := Name.qualify name
  let c ← alloc (.code qualified body)
  let old := (← get).symbol? .code qualified
  modify fun h => { h with symbols := h.symbols.define .code qualified c }
  if let some old := old then release old

def isLoaded (h : Heap) (package : String) : Bool := h.loaded.contains package

def markLoaded (package : String) : HeapM Unit :=
  modify fun h => if h.isLoaded package then h else { h with loaded := package :: h.loaded }

def packageExists (h : Heap) (package : String) : Bool :=
  h.isLoaded package
    || h.symbols.subs.keys.any fun name => (Name.member package "").toList.isPrefixOf name.toList

/-- The texts of an array's items, without those that cannot be read. -/
def strings (h : Heap) (array : CellId) : List String :=
  match h.items array with
  | .ok items => items.toList.filterMap fun item => (h.toText item).toOption
  | .error _ => []

def arrayStrings (h : Heap) (name : String) : List String :=
  match h.symbol? .array (Name.qualify name) with
  | some array => h.strings array
  | none => []

/-- The classes that `@ISA` of a class lists. -/
def parents (h : Heap) (className : String) : List String :=
  h.arrayStrings (Name.member className "ISA")

/-- What the first of a class and its parents gives that gives anything: the class before its parents,
and each parent with its own before the next one. The state is the classes that were looked at, none
of which is looked at twice. A search that goes too deep ends without an answer. -/
def search {α : Type} (parents : String → List String) (found : String → Option α) :
    (depth : Nat) → String → StateT (List String) Option (Option α)
  | 0, _ => failure
  | depth + 1, className => do
    if className ∈ (← get) then return none
    modify (· ++ [className])
    match found className with
    | some a => return some a
    | none => (parents className).findSomeM? (search parents found depth)

/-- Whether the target is among the pending classes and their parents. Parents come on top of the
classes that are pending already, the last of them first. A search that takes too many steps ends
without an answer. -/
def reaches (parents : String → List String) (target : String) :
    (steps : Nat) → (visited pending : List String) → Option Bool
  | 0, _, _ => none
  | _ + 1, _, [] => some false
  | steps + 1, visited, className :: pending =>
    if className = target then some true
    else if className ∈ visited then reaches parents target steps visited pending
    else
      reaches parents target steps (className :: visited) ((parents className).reverse ++ pending)

/-- More than the number of classes that can be met from any class on. -/
def classBound (h : Heap) : Nat :=
  h.symbols.arrays.values.foldl (fun n array => n + (h.strings array).length) 2

/-- The sub of that name that a class has itself. -/
def ownMethod (h : Heap) (method className : String) : Option CellId :=
  h.symbol? .code (Name.member className method)

/-- The sub of that name of the first class that has one, from a class on through its parents, else
the one that all classes have. -/
def resolveMethod (h : Heap) (className method : String) : Option CellId :=
  ((search h.parents (h.ownMethod method) h.classBound className).run' []).join
    <|> h.ownMethod method "UNIVERSAL"

/-- Every class that is met adds at most as many pending ones as there are names in all arrays, so
the square of the bound on classes is enough steps. -/
def derivesFrom (h : Heap) (className ancestor : String) : Bool :=
  (reaches h.parents ancestor (h.classBound ^ 2) [] [className]).getD false

end Heap

end Embedding
