import Embedding.Binary64.Basic
import Embedding.Cell.Flags
import Embedding.Cell.Kind

/-!
# Answers

An operation on an interpreter answers in a fixed shape. The cells in an answer are stakes: whoever
receives the answer owns one count on each of them. An address is only a number and no stake.
-/

namespace Embedding

inductive Shape
  | nothing
  | truth
  | size
  | int
  | num
  | bytes
  | text
  | kind
  | kindIfLive
  | flags
  | address
  | className
  | cell
  | cellIfAny
  | cells
  | entryIfAny
  deriving DecidableEq

/-- An answer of a shape, where `ρ` stands for a stake in a cell. -/
abbrev Answer (ρ : Type) : Shape → Type
  | .nothing => Unit
  | .truth => Bool
  | .size => Nat
  | .int => Int64
  | .num => Binary64
  | .bytes => List UInt8
  | .text => String
  | .kind => Kind
  | .kindIfLive => Option Kind
  | .flags => Flags
  | .address => CellId
  | .className => Option String
  | .cell => ρ
  | .cellIfAny => Option ρ
  | .cells => List ρ
  | .entryIfAny => Option (String × ρ)

namespace Answer
variable {ρ σ : Type}

def map (f : ρ → σ) : {s : Shape} → Answer ρ s → Answer σ s
  | .nothing, a | .truth, a | .size, a | .int, a | .num, a | .bytes, a | .text, a | .kind, a
  | .kindIfLive, a | .flags, a | .address, a | .className, a => a
  | .cell, a => f a
  | .cellIfAny, a => Option.map f a
  | .cells, a => List.map f a
  | .entryIfAny, a => Option.map (fun e => (e.1, f e.2)) a

def stakes : {s : Shape} → Answer ρ s → List ρ
  | .nothing, _ | .truth, _ | .size, _ | .int, _ | .num, _ | .bytes, _ | .text, _ | .kind, _
  | .kindIfLive, _ | .flags, _ | .address, _ | .className, _ => []
  | .cell, a => [a]
  | .cellIfAny, a => Option.toList a
  | .cells, a => a
  | .entryIfAny, a => (Option.map Prod.snd a).toList

theorem stakes_map (f : ρ → σ) {s : Shape} (a : Answer ρ s) :
    (a.map f).stakes = a.stakes.map f := by
  cases s <;> first | rfl | (cases a <;> rfl)

end Answer

end Embedding
