import Embedding.Console.View

/-!
# A raw console

A raw console makes requests to one interpreter without a session around it. Its registers are names
for cells and own nothing: whoever gives the commands keeps the counts.
-/

namespace Embedding

/-- Bytes, as text if they are one. -/
def View.ofBytes (bytes : List UInt8) : View :=
  match Utf8.decode bytes with
  | .ok s => .text s
  | .error _ => .bytes bytes

def Answer.view : {s : Shape} → Answer CellId s → View
  | .nothing, _ => .nothing
  | .truth, b => .bool b
  | .size, n => .int n
  | .int, n => .int n.toInt
  | .num, x => .float x
  | .bytes, bytes => .ofBytes bytes
  | .text, s => .text s
  | .kind, k => .text k.display
  | .kindIfLive, some k => .text k.display
  | .kindIfLive, none => .nothing
  | .flags, fs => .flags fs
  | .address, c => .address c
  | .className, some name => .text name
  | .className, none => .nothing
  | .cell, c => .ofCell c
  | .cellIfAny, some c => .ofCell c
  | .cellIfAny, none => .nothing
  | .cells, cs => .list (List.map View.ofCell cs)
  | .entryIfAny, some (key, c) => .list [.text key, .ofCell c]
  | .entryIfAny, none => .nothing

/-- The cells in an answer, by the ends of the names of the registers that receive them. -/
def Answer.named : {s : Shape} → Answer CellId s → List (String × CellId)
  | .cells, cs => cs.zipIdx.map fun (c, index) => (s!".{index}", c)
  | _, a => a.stakes.map fun c => ("", c)

namespace RawConsole

inductive CellRef
  | register (name : String)
  | number (c : CellId)
  deriving DecidableEq

inductive Command
  | request {s : Shape} (r : Request CellRef s)
  | destruct
  | isConstructed
  | capabilities
  | liveCells

structure Line where
  command : Command
  /-- Receives the cell that is answered. Cell `i` of a list goes to the register `into.i`. -/
  into : Option String := none
  /-- Receives the cell that holds the error, if foreign code died. -/
  errorInto : Option String := none

inductive Reply
  | view (v : View)
  /-- The request failed. If foreign code died, what the error's bytes are. -/
  | failed (fault : Fault) (text : Option View)
  /-- A register that the request names was empty. -/
  | skipped

end RawConsole

structure RawConsole where
  interpreter : Interpreter
  registers : Dict CellId := []

namespace RawConsole

def cell? (c : RawConsole) : CellRef → Option CellId
  | .register name => c.registers.get? name
  | .number id => some id

def store (c : RawConsole) (into : Option String) (cells : List (String × CellId)) : RawConsole :=
  match into with
  | some name =>
    { c with registers := cells.foldl (fun d e => d.insert (name ++ e.1) e.2) c.registers }
  | none => c

def peek {s : Shape} (c : RawConsole) (r : Request CellId s) : Option (Answer CellId s) :=
  (c.interpreter.perform r).1.toOption

/-- Looks at the answer to a request. A reference counts as the number of its target, which is shown
as an address. -/
def look (c : RawConsole) : {s : Shape} → Request CellId s → Answer CellId s → View
  | _, .toInt id, n =>
    if isReference c id then .address ⟨n.toInt.toNat⟩ else .int n.toInt
  | _, .toNum id, x =>
    if isReference c id then .address ⟨x.toInt64.toInt.toNat⟩ else .float x
  | _, _, a => a.view
where
  isReference (c : RawConsole) (id : CellId) : Bool := (c.peek (.flags id)).any Flags.ref

def Line.run (line : Line) (c : RawConsole) : Reply × RawConsole :=
  match line.command with
  | .request r =>
    if r.cells.all fun ref => (c.cell? ref).isSome then
      let r := r.map fun ref => (c.cell? ref).getD ⟨0⟩
      let (answer, interpreter) := c.interpreter.perform r
      let c := { c with interpreter }
      match answer with
      | .ok a => (.view (c.look r a), c.store line.into a.named)
      | .error (.died value) =>
        let text := (c.peek (.toBytes value)).map View.ofBytes
        (.failed (.died value) text, c.store line.errorInto [("", value)])
      | .error fault => (.failed fault none, c)
    else (.skipped, c)
  | .destruct => (.view .nothing, { c with interpreter := c.interpreter.destruct })
  | .isConstructed => (.view (.bool c.interpreter.isConstructed), c)
  | .capabilities =>
    let capabilities := c.interpreter.setup.capabilities
    (.view (.list [.bool capabilities.multiplicity, .bool capabilities.threadSafe]), c)
  | .liveCells => (.view (.int c.interpreter.liveCells), c)

def run : List Line → RawConsole → List Reply
  | [], _ => []
  | line :: lines, c =>
    let (reply, c) := line.run c
    reply :: run lines c

end RawConsole

end Embedding
