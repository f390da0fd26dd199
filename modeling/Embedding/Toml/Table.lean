import Embedding.Dict

/-!
# Tables of a TOML document

A table can be defined once. How it came to be decides what may still be added to it.
-/

namespace Embedding.Toml

/-- What brought a table into being. -/
inductive Origin
  /-- A header of a table inside it. -/
  | implied
  /-- A dotted key. -/
  | dotted
  /-- A header of its own. -/
  | header
  /-- Braces. No more can be added to such a table. -/
  | braces
  deriving DecidableEq

inductive Item
  | text (s : String)
  | bool (b : Bool)
  /-- A number, a date or a time. -/
  | plain
  | array (items : List Item)
  | table (origin : Origin) (entries : List (String × Item))
  /-- The tables that headers in double brackets start, in order. -/
  | tables (elements : List (List (String × Item)))

/-- Stores an item in a table under a dotted key, whose last part is `key`. A dotted key may go on
only in tables that dotted keys made. -/
def store (key : String) (item : Item) : (path : List String) → Dict Item → Option (Dict Item)
  | [], entries => if entries.contains key then none else some (entries.insert key item)
  | p :: path, entries =>
    match entries.get? p with
    | none => (store key item path []).map fun inner => entries.insert p (.table .dotted inner)
    | some (.table .dotted inner) =>
      (store key item path inner).map fun inner => entries.insert p (.table .dotted inner)
    | some (.table .implied inner) =>
      if path = [] then none
      else (store key item path inner).map fun inner => entries.insert p (.table .implied inner)
    | some (.tables elements) =>
      if path = [] then none
      else do
        let last ← elements.getLast?
        let last ← store key item path last
        some (entries.insert p (.tables (elements.dropLast ++ [last])))
    | some _ => none

/-- Changes the table that a header path leads to. The path runs through the last of the tables that
share a header, and implies the tables that are not there. -/
def within (change : Dict Item → Option (Dict Item)) : List String → Dict Item → Option (Dict Item)
  | [], entries => change entries
  | p :: path, entries =>
    match entries.get? p with
    | none => (within change path []).map fun inner => entries.insert p (.table .implied inner)
    | some (.table origin inner) =>
      if origin = .braces then none
      else (within change path inner).map fun inner => entries.insert p (.table origin inner)
    | some (.tables elements) => do
      let last ← elements.getLast?
      let last ← within change path last
      some (entries.insert p (.tables (elements.dropLast ++ [last])))
    | some _ => none

/-- Defines a table by its header. A table that was only implied so far keeps what it has. -/
def openTable (key : String) (entries : Dict Item) : Option (Dict Item) :=
  match entries.get? key with
  | none => some (entries.insert key (.table .header []))
  | some (.table .implied inner) => some (entries.insert key (.table .header inner))
  | some _ => none

/-- Starts the next of the tables that share a header. -/
def openElement (key : String) (entries : Dict Item) : Option (Dict Item) :=
  match entries.get? key with
  | none => some (entries.insert key (.tables [[]]))
  | some (.tables elements) => some (entries.insert key (.tables (elements ++ [[]])))
  | some _ => none

/-- What a line of a document says. The last part of a path stands by itself. -/
inductive Statement
  | header (path : List String) (key : String)
  | element (path : List String) (key : String)
  | entry (path : List String) (key : String) (item : Item)

/-- A document under construction: its entries, and the path of the table that the next entry goes
to. -/
structure Document where
  entries : Dict Item := []
  current : List String := []

def Document.add (d : Document) : Statement → Option Document
  | .header path key => do
    let entries ← within (openTable key) path d.entries
    some { entries, current := path ++ [key] }
  | .element path key => do
    let entries ← within (openElement key) path d.entries
    some { entries, current := path ++ [key] }
  | .entry path key item => do
    let entries ← within (store key item path) d.current d.entries
    some { d with entries }

end Embedding.Toml
