import Embedding.Console.View
import Embedding.Routine

/-!
# Console commands

A console works on sessions and on registers. A command names the registers that it reads, and its
values may contain clones of values in registers.
-/

namespace Embedding.Console

/-- A value that is to be made. -/
inductive Term
  /-- A clone of the value in a register. -/
  | register (name : String)
  | nothing
  | bool (b : Bool)
  | int (n : Int64)
  | float (x : Binary64)
  | text (s : String)
  | bytes (bytes : List UInt8)
  | list (items : List Term)
  | mapping (entries : List (String × Term))

inductive SessionCommand
  | stage
  | capabilities
  | config
  | listing
  | liveHandles
  | start
  | shutDown
  | disown
  | load (package : String)
  | get (name : String)
  | set (name : String) (v : Term)
  | eval (source : String)
  | function (name : String)
  | call (name : String) (args : List Term)
  | toForeign (v : Term)
  | toHost (on : String)
  | newArray (items : List Term)
  | newHash (entries : List (String × Term))
  /-- Gives an operation of the interpreter a fixed answer, or takes it away. -/
  | fix (operation : Option Operation) (answer : Option FixedAnswer)

inductive HandleCommand
  | refcount
  | kind
  | flags
  | identity
  | intoRaw

inductive ArrayCommand
  | get (index : Nat)
  | set (index : Nat) (v : Term)
  | length
  | isEmpty
  | push (v : Term)
  | pop
  | clear
  | toList
  | cursor
  | container

inductive HashCommand
  | get (key : String)
  | set (key : String) (v : Term)
  | length
  | isEmpty
  | contains (key : String)
  | delete (key : String)
  | clear
  | keys
  | toDict
  | cursor
  | container

inductive ContainerCommand
  | get (key : Key)
  | set (key : Key) (v : Term)
  | length
  | isEmpty
  | cursor
  | equal (other : String)

inductive CallableCommand
  | call (args : List Term) (keywords : Option (List (String × Term)))
  | callOne (args : List Term)
  | info

inductive ObjectCommand
  | className
  | method (name : String)
  | call (name : String) (args : List Term)
  | isa (className : String)
  | can (name : String)
  | identity

inductive NamespaceCommand
  | name
  | function (name : String)
  | call (name : String) (args : List Term)
  | method (name : String)
  | callMethod (name : String) (args : List Term)
  | construct (args : List Term)
  | get (name : String)
  | set (name : String) (v : Term)

inductive Command
  | session (s : SessionId) (command : SessionCommand)
  | handle (on : String) (command : HandleCommand)
  | array (on : String) (command : ArrayCommand)
  | hash (on : String) (command : HashCommand)
  | container (on : String) (command : ContainerCommand)
  | callable (on : String) (command : CallableCommand)
  | object (on : String) (command : ObjectCommand)
  | package (on : String) (command : NamespaceCommand)
  | drop (on : String)
  | copy (on : String)
  | describe (on : String)
  | inspect (on : String) (depth : Nat)
  | equal (a b : Term)
  | extract (on : String) (type : HostType)
  | listing (on : String)
  /-- A clone of the handle that a value, a container or a handle owns. -/
  | handleOf (on : String)
  | next (on : String)
  | error (on : String)
  | errorWithoutValue (on : String)
  | errorValue (on : String)

/-- A command, and the registers that receive what it produces. -/
structure Line where
  command : Command
  /-- Receives the result. Item `i` of a list goes to the register `to.i`. -/
  into : Option String := none
  /-- Receives the error, if the command fails. -/
  errorInto : Option String := none

/-- A value from all sides. -/
structure Description where
  typeName : String
  display : String
  isNothing : Bool
  isView : Bool
  bool? : Option Bool
  int? : Option Int64
  float? : Option Binary64
  text? : Option String
  bytes? : Option (List UInt8)
  listLength? : Option Nat
  mappingKeys? : Option (List String)

def Description.ofValue (v : Value) : Description where
  typeName := v.typeName
  display := v.display
  isNothing := v.isNothing
  isView := v.isView
  bool? := v.bool?
  int? := v.int?
  float? := v.float?
  text? := v.text?
  bytes? := v.bytes?
  listLength? := v.list?.map List.length
  mappingKeys? := v.mapping?.map Dict.keys

inductive Reply
  | view (v : View)
  | config (c : Config)
  | description (d : Description)
  | callable (methodName : Option String)
  /-- An error, and whether it has a value. -/
  | error (v : View) (sort : HostError.Sort) (hasValue : Bool)
  | failed (e : View)
  /-- The command was not carried out: a register did not hold what it needs, or the session has no
  owner any more. -/
  | skipped

end Embedding.Console
