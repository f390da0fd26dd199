import Embedding.Heap.Pending

/-!
# Frames

A frame runs the body of a sub. It keeps the temporaries that the body's actions made, and gives
their counts back when the body has ended and its values have been copied out.
-/

namespace Embedding

structure Frame where
  heap : Heap
  /-- The cells that the frame holds a count on, the newest first. -/
  temporaries : List CellId := []

/-- What happens in a frame: it ends with an answer or dies with a cell. -/
abbrev FrameM := ExceptT CellId (StateM Frame)

namespace Frame

def onHeap {α : Type} (x : HeapM α) : FrameM (Except Fault α) :=
  modifyGet fun frame => let (r, heap) := x.run frame.heap; (r, { frame with heap })

def keep (c : CellId) : FrameM CellId :=
  modifyGet fun frame => (c, { frame with temporaries := c :: frame.temporaries })

def create (content : Content) : FrameM CellId := do
  keep (← modifyGet fun frame =>
    let (c, heap) := frame.heap.allocate content
    (c, { frame with heap }))

def die {α : Type} (message : String) : FrameM α := do
  throw (← create (.scalar (.ofText message)))

/-- Acts on the heap, and dies with the fault's message. -/
def orFault {α : Type} (x : HeapM α) : FrameM α := do
  match ← onHeap x with
  | .ok a => return a
  | .error fault => die fault.message

/-- Acts on the heap, and dies with the message. -/
def orDie {α : Type} (message : String) (x : HeapM α) : FrameM α := do
  match ← onHeap x with
  | .ok a => return a
  | .error _ => die message

/-- The container that a reference or the container itself stands for. -/
def container (c : CellId) : FrameM CellId := do
  match (← get).heap.kind c with
  | .ok .ref => orFault (Heap.query (·.target c))
  | .ok _ => return c
  | .error fault => die fault.message

def newRef (target : CellId) : FrameM CellId := do keep (← orFault (Heap.newRef target))

def keepIfAny : Option CellId → FrameM (Option CellId)
  | some c => some <$> keep c
  | none => return none

def global (name : String) : FrameM CellId := do
  match ← orFault (Heap.global .scalar name true) with
  | some c => keep c
  | none => die s!"Global ${name} is not available"

/-- Stores the values into a new array from an index on. -/
def storeItems (array : CellId) : (index : Nat) → List CellId → FrameM Unit
  | _, [] => return
  | index, item :: items => do
    orFault (Heap.arrayStore array index item)
    storeItems array (index + 1) items

/-- The length of an array or a hash or of the target of a reference, 0 of anything else. -/
def length (h : Heap) (c : CellId) : Nat :=
  let c := match h.kind c with
    | .ok .ref => (h.target c).toOption.getD c
    | _ => c
  ((h.arrayLength c).toOption <|> (h.hashLength c).toOption).getD 0

def perform (call : Target CellId → List CellId → HeapM (List CellId)) :
    {s : Shape} → Action s → FrameM (Answer CellId s)
  | _, .liveCells => return (← get).heap.liveCells
  | _, .intOf c => return ((← get).heap.toInt c).toOption.getD 0
  | _, .numOf c => return ((← get).heap.toNum c).toOption.getD .zero
  | _, .textOf c => return ((← get).heap.toText c).toOption.getD ""
  | _, .numify c => return (← onHeap (Heap.numify c)).toOption.getD .zero
  | _, .kindOf c => return ((← get).heap.kind c).toOption
  | _, .classOf c => return ((← get).heap.className c).toOption.join
  | _, .derives className parent => return (← get).heap.derivesFrom className parent
  | _, .newUndef => create (.scalar .undef)
  | _, .newInt n => create (.scalar (.ofInt n))
  | _, .newNum x => create (.scalar (.ofNum x))
  | _, .newText s => create (.scalar (.ofText s))
  | _, .newBytes bytes => create (.scalar (.ofBytes bytes false))
  | _, .newBool b => create (.scalar (.ofBool b))
  | _, .newGlob name => create (.glob (Name.qualify name))
  | _, .newArray items => do
    let array ← create (.array #[])
    storeItems array 0 items
    newRef array
  | _, .newHash pairs => do
    let hash ← create (.hash [] 0)
    pairs.forM fun (key, value) => orFault (Heap.hashStore hash key value)
    newRef hash
  | _, .newRef target => newRef target
  | _, .bless c className => do
    orDie "Can't bless non-reference value" (Heap.bless c className)
    return c
  | _, .fetch c key => do
    let hash ← container c
    keepIfAny (← orDie "Not a HASH reference" (Heap.hashFetch hash key))
  | _, .store c key value => do
    let hash ← container c
    orDie "Not a HASH reference" (Heap.hashStore hash key value)
  | _, .assign target value => orFault (Heap.assign target value)
  | _, .element c index => do
    let array ← container c
    keepIfAny (← orDie "Not an ARRAY reference" (Heap.arrayFetch array index))
  | _, .push c value => do
    let array ← container c
    let length ← orDie "Not an ARRAY reference" (Heap.query (·.arrayLength array))
    orFault (Heap.arrayStore array length value)
  | _, .length c => return Frame.length (← get).heap c
  | _, .global name => global name
  | _, .setGlobal name value => do
    let c ← global name
    orFault (Heap.assign c value)
  | _, .codeRef name => do
    match ← orFault (Heap.global .code name false) with
    | some c =>
      let c ← keep c
      some <$> newRef c
    | none => return none
  | _, .can className method => do
    match (← get).heap.resolveMethod className method with
    | some c => some <$> newRef c
    | none => return none
  | _, .call target args => do
    match ← onHeap (call target args) with
    | .ok values => values.mapM keep
    | .error (.died value) => throw (← keep value)
    | .error fault => die fault.message
  | _, .setError value => orFault (Heap.setError value)
  | _, .message s => create (.scalar (.ofText s))

end Frame

def Proc.run {α : Type} (call : Target CellId → List CellId → HeapM (List CellId)) : Proc α → FrameM α
  | .done a => return a
  | .die value => throw value
  | .act action next => do
    let answer ← ExceptT.lift (Frame.perform call action).run
    (next answer).run call

namespace Heap

/-- Runs the body of a sub in a fresh frame. What the body returns or dies with is copied before the
frame gives its temporaries up. -/
def invoke (call : Target CellId → List CellId → HeapM (List CellId)) (body : Proc (List CellId))
    (context : Context) : HeapM (List CellId) := do
  clearError
  let (outcome, frame) := (body.run call).run { heap := ← get }
  set frame.heap
  let result ← HeapM.attempt <|
    match outcome with
    | .ok values => values.mapM copy
    | .error value => do
      let value ← copy value
      setError value
      throw (.died value)
  releaseAll frame.temporaries.reverse
  let values ← ofExcept result
  match context with
  | .list => return values
  | .scalar =>
    releaseAll values.dropLast
    return values.getLast?.toList
  | .void =>
    releaseAll values
    return []

/-- The class in which a method of the invocant is looked for: the package of an object, or the
package that a string names. -/
def invocantClass (invocant : CellId) (method : String) : HeapM String := do
  match ← query (·.kind invocant) with
  | .ref =>
    match ← query (·.className invocant) with
    | some className => return className
    | none => die s!"Can't call method \"{method}\" on unblessed reference"
  | .scalar =>
    let className ← query (·.toText invocant)
    if (← get).packageExists className then return className
    else
      die s!"Can't locate object method \"{method}\" via package \"{className}\" (perhaps you forgot to load \"{className}\"?)"
  | _ => die s!"Can't call method \"{method}\" on an undefined value"

/-- The code cell that a target stands for. A method name with a package names its sub outright. -/
def resolve (target : Target CellId) : HeapM CellId := do
  match target with
  | .code c =>
    match ← query (·.kind c) with
    | .code => return c
    | .ref =>
      let referent ← query (·.target c)
      if (← query (·.kind referent)) = .code then return referent
      else die "Not a CODE reference"
    | _ => die "Not a CODE reference"
  | .named name =>
    match (← get).symbol? .code (Name.qualify name) with
    | some c => return c
    | none => die s!"Undefined subroutine &{Name.qualify name} called"
  | .method invocant name =>
    let className ← invocantClass invocant name
    let h ← get
    let found :=
      if Name.hasPackage name.toList then h.symbol? .code name else h.resolveMethod className name
    match found with
    | some c => return c
    | none => die s!"Can't locate object method \"{name}\" via package \"{className}\""

def maxDepth : Nat := 100000

/-- Calls a target in a heap where calls may still nest `depth` levels deep. A method's invocant is
its first argument. -/
def callWithin : (depth : Nat) → Target CellId → List CellId → Context → HeapM (List CellId)
  | 0, _, _, _ => die "Deep recursion limit exceeded"
  | depth + 1, target, args, context => do
    let c ← resolve target
    let args := match target with
      | .method invocant _ => invocant :: args
      | _ => args
    match (← query (·.cell c)).content with
    | .code name body =>
      invoke (fun target args => callWithin depth target args .list) (body ⟨name, args, context⟩)
        context
    | _ => die "Not a CODE reference"

def call (target : Target CellId) (args : List CellId) (context : Context) : HeapM (List CellId) :=
  callWithin maxDepth target args context

def eval (evaluator : Evaluator) (source : String) (context : Context) : HeapM (List CellId) :=
  invoke (fun target args => callWithin maxDepth target args .list)
    (evaluator source ⟨"(eval)", [], context⟩) context

end Heap

end Embedding
