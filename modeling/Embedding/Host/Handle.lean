import Embedding.Cell.Kind

/-!
# Handles

A handle is the host's stake in a cell: it stands for exactly one count on the cell, from the time it
is made to the time it is released.
-/

namespace Embedding

structure SessionId where
  index : Nat
  deriving DecidableEq

/-- A stake of the host in a cell of a session. -/
structure Handle where
  session : SessionId
  cell : CellId
  deriving DecidableEq

def Handle.listing (h : Handle) : String := s!"ForeignHandle({h.cell.display})"

end Embedding
