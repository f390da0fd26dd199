import Embedding.Cell.Scalar
import Embedding.Dict
import Embedding.Fault
import Embedding.Name
import Embedding.Native

/-!
# The heap

The heap holds the live cells with their counts, and the symbols that name some of them. An
operation that fails keeps what it did before it failed.
-/

namespace Embedding

inductive Content
  | scalar (value : Scalar)
  | array (items : Array CellId)
  /-- Entries in insertion order, and the place of the next entry to be iterated over. -/
  | hash (entries : Dict CellId) (cursor : Nat)
  | code (name : String) (body : NativeSub)
  | glob (name : String)

namespace Content

def children : Content → List CellId
  | .scalar s => s.ref.toList
  | .array items => items.toList
  | .hash entries _ => entries.values
  | .code .. | .glob _ => []

def kind : Content → Kind
  | .scalar s => s.kind
  | .array _ => .array
  | .hash .. => .hash
  | .code .. => .code
  | .glob _ => .glob

end Content

structure Cell where
  refcount : Nat
  /-- The package the cell is blessed into. -/
  package : Option String := none
  content : Content

/-- The tables that name cells. A table holds one count on each cell that it names. -/
structure Symbols where
  scalars : Dict CellId := []
  arrays : Dict CellId := []
  hashes : Dict CellId := []
  subs : Dict CellId := []

namespace Symbols

def table (t : Symbols) : Slot → Dict CellId
  | .scalar => t.scalars
  | .array => t.arrays
  | .hash => t.hashes
  | .code => t.subs

def define (t : Symbols) (slot : Slot) (name : String) (c : CellId) : Symbols :=
  match slot with
  | .scalar => { t with scalars := t.scalars.insert name c }
  | .array => { t with arrays := t.arrays.insert name c }
  | .hash => { t with hashes := t.hashes.insert name c }
  | .code => { t with subs := t.subs.insert name c }

theorem table_define (t : Symbols) (a b : Slot) (name : String) (c : CellId) :
    (t.define a name c).table b = if a = b then (t.table b).insert name c else t.table b := by
  cases a <;> cases b <;> rfl

end Symbols

structure Heap where
  /-- The cell of each number, none if it was freed. Number 0 is no cell. -/
  cells : Array (Option Cell) := #[none]
  symbols : Symbols := {}
  loaded : List String := []

abbrev HeapM := ExceptT Fault (StateM Heap)

namespace Heap

def cell? (h : Heap) (c : CellId) : Option Cell := (h.cells[c.index]?).join

def liveCells (h : Heap) : Nat := h.cells.foldl (fun n cell => if cell.isSome then n + 1 else n) 0

def setCell (h : Heap) (c : CellId) (cell : Option Cell) : Heap :=
  { h with cells := h.cells.setIfInBounds c.index cell }

def cell (h : Heap) (c : CellId) : Except Fault Cell :=
  match h.cell? c with
  | some cell => .ok cell
  | none => .error (.freed c)

def query {α : Type} (f : Heap → Except Fault α) : HeapM α := ExceptT.mk fun h => (f h, h)

/-- A new cell with one count, and the heap with it. -/
def allocate (h : Heap) (content : Content) : CellId × Heap :=
  (⟨h.cells.size⟩, { h with cells := h.cells.push (some { refcount := 1, content }) })

def alloc (content : Content) : HeapM CellId := modifyGet (·.allocate content)

def allocUndefs (n : Nat) : HeapM (List CellId) :=
  modifyGet fun h =>
    ((List.range n).map fun i => ⟨h.cells.size + i⟩,
      { h with cells :=
          h.cells ++ Array.replicate n (some { refcount := 1, content := .scalar .undef }) })

def retain (c : CellId) : HeapM Unit := do
  let cell ← query (·.cell c)
  modify (·.setCell c (some { cell with refcount := cell.refcount + 1 }))

/-- Takes a count from the cell. The last one frees it and takes one from each of its children, and
so on down. Every level frees a cell, so `depth` need not exceed the number of cells. -/
def drop : (depth : Nat) → Heap → CellId → Heap
  | 0, h, _ => h
  | depth + 1, h, c =>
    match h.cell? c with
    | none => h
    | some cell =>
      if cell.refcount ≤ 1 then cell.content.children.foldl (drop depth) (h.setCell c none)
      else h.setCell c (some { cell with refcount := cell.refcount - 1 })

def release (c : CellId) : HeapM Unit := do
  let _ ← query (·.cell c)
  modify fun h => h.drop h.cells.size c

/-- Gives counts back one after another, up to the first cell that is not live. -/
def releaseAll (cs : List CellId) : HeapM Unit := cs.forM release

def refcount (h : Heap) (c : CellId) : Except Fault Nat := do return (← h.cell c).refcount

def kind (h : Heap) (c : CellId) : Except Fault Kind := do return (← h.cell c).content.kind

def setContent (c : CellId) (content : Content) : HeapM Unit := do
  let cell ← query (·.cell c)
  modify (·.setCell c (some { cell with content }))

theorem cell?_setCell (h : Heap) (c d : CellId) (cell : Option Cell) :
    (h.setCell c cell).cell? d =
      if c = d ∧ c.index < h.cells.size then cell else h.cell? d := by
  obtain ⟨i⟩ := c
  obtain ⟨j⟩ := d
  by_cases hij : i = j
  · subst hij
    by_cases hi : i < h.cells.size <;> simp [cell?, setCell, hi]
  · simp [cell?, setCell, hij]

theorem cell?_allocate (h : Heap) (content : Content) (c : CellId) :
    (h.allocate content).2.cell? c =
      if c = (h.allocate content).1 then some { refcount := 1, content } else h.cell? c := by
  obtain ⟨i⟩ := c
  by_cases hi : i = h.cells.size
  · simp [cell?, allocate, hi]
  · simp [cell?, allocate, hi, Array.getElem?_push]

theorem cell_eq_ok_iff {h : Heap} {c : CellId} {x : Cell} :
    h.cell c = .ok x ↔ h.cell? c = some x := by
  unfold cell
  cases h.cell? c <;> simp

theorem cell_eq_error_iff {h : Heap} {c : CellId} {e : Fault} :
    h.cell c = .error e ↔ h.cell? c = none ∧ e = .freed c := by
  unfold cell
  cases h.cell? c <;> simp [eq_comm]

end Heap

end Embedding
