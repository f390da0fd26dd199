import Embedding.Package

/-!
# Setups

What is fixed about an interpreter before it is started.
-/

namespace Embedding

/-- What an interpreter build can do. -/
structure Capabilities where
  /-- Several interpreters can run at a time. -/
  multiplicity : Bool := false
  threadSafe : Bool := false
  deriving DecidableEq

/-- What is fixed about an interpreter. -/
structure Setup where
  capabilities : Capabilities := { multiplicity := true }
  provided : Dict Package := []
  /-- The packages that are there from the start. -/
  preloaded : List String := []
  evaluator : Option Evaluator := none

namespace Setup

def provide (s : Setup) (p : Package) : Setup := { s with provided := s.provided.insert p.name p }

def preload (s : Setup) (p : Package) : Setup :=
  { s.provide p with preloaded := s.preloaded ++ [p.name] }

end Setup

end Embedding
