import Embedding.Host.Handle

/-!
# Views

A view stands for a cell of an interpreter, through one handle that it owns. What the cell holds is
looked up each time.
-/

namespace Embedding

structure ArrayView where
  cell : Handle
  deriving DecidableEq

structure HashView where
  cell : Handle
  deriving DecidableEq

/-- Something that can be called. -/
inductive Callable
  | code (cell : Handle)
  /-- The method of that name which the receiver's class has at the time of the call. -/
  | method (receiver : Handle) (name : String)
  deriving DecidableEq

structure ObjectView where
  reference : Handle
  /-- The class of the object at the time the view was made. -/
  className : String
  deriving DecidableEq

namespace Callable

/-- The handle that a callable owns. -/
def anchor : Callable → Handle
  | .code cell => cell
  | .method receiver _ => receiver

def methodName? : Callable → Option String
  | .code _ => none
  | .method _ name => some name

end Callable

/-! ## Views on one line -/

def ArrayView.listing (a : ArrayView) : String := s!"ArrayBridge({a.cell.cell.display})"

def HashView.listing (h : HashView) : String := s!"HashBridge({h.cell.cell.display})"

def Callable.listing : Callable → String
  | .code cell => s!"CallableBridge(CODE {cell.cell.display})"
  | .method receiver name => s!"CallableBridge({receiver.cell.display}->{name})"

def ObjectView.listing (o : ObjectView) : String :=
  s!"ObjectProxy({o.className} @ {o.reference.cell.display})"

end Embedding
