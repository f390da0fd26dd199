import Embedding.Host.Extraction

/-!
# Calls

Calls are made in list context. A method is looked for in the class that the receiver has at the time
of the call.
-/

namespace Embedding

open HostM (holding)

namespace Callable

/-- Calls with cells as arguments. The receiver of a method goes before them. -/
def invoke (c : Callable) (args : List Handle) : HostM (List Value) := do
  let results ← match c with
    | .code cell => cross cell.session "call" (.call (.code cell) args .list)
    | .method receiver name =>
      cross receiver.session "method call" (.call (.method receiver name) args .list)
  holding results do valuesOf results

/-- Calls with values as arguments, and answers all values that are returned. -/
def call (c : Callable) (args : List Value) : HostM (List Value) := do
  let cells ← newCells c.anchor.session args
  holding cells do c.invoke cells

/-- The arguments in a row, each keyword before its value. -/
def flatten (args : List Value) (keywords : Dict Value) : List Value :=
  args ++ keywords.flatMap fun (key, v) => [.text key, v]

def callWithKeywords (c : Callable) (args : List Value) (keywords : Dict Value) :
    HostM (List Value) := do
  let flat := flatten args keywords
  HostM.clone (Value.handlesOfItems flat)
  holding (Value.handlesOfItems flat) do c.call flat

/-- Calls, and answers the first value that is returned. -/
def callOne (c : Callable) (args : List Value) : HostM Value := do
  match ← c.call args with
  | [] => return .nothing
  | v :: vs =>
    HostM.release (Value.handlesOfItems vs)
    return v

end Callable

namespace ObjectView

/-- The method of that name, bound to the object. Whether there is one shows when it is called. -/
def method (o : ObjectView) (name : String) : HostM Callable := do
  HostM.clone [o.reference]
  return .method o.reference name

def callMethod (o : ObjectView) (name : String) (args : List Value) : HostM (List Value) := do
  let c ← o.method name
  holding [c.anchor] do c.call args

/-- The first value that a method with a text as its argument returns. -/
def askMethod (o : ObjectView) (name argument : String) : HostM Value := do
  let c ← o.method name
  holding [c.anchor] do c.callOne [.text argument]

def isa (o : ObjectView) (className : String) : HostM Bool := do
  let answer ← o.askMethod "isa" className
  HostM.release answer.handles
  return answer.isTrue

/-- The sub that the object says it has for a method. -/
def can (o : ObjectView) (name : String) : HostM (Option Callable) := do
  let answer ← o.askMethod "can" name
  holding answer.handles (answer.extract (.option .callable))

def identity (o : ObjectView) : HostM CellId := o.reference.identity

end ObjectView

end Embedding
