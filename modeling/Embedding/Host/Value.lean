import Embedding.Binary64.Shortest
import Embedding.Dict
import Embedding.Host.View
import Embedding.Text.Quoted
import Embedding.Text.Utf8

/-!
# Values of the host

A value is plain data or a view of a cell. A view owns one handle.
-/

namespace Embedding

inductive Value
  | nothing
  | bool (b : Bool)
  | int (n : Int64)
  | float (x : Binary64)
  | text (s : String)
  | bytes (bytes : List UInt8)
  | list (items : List Value)
  | mapping (entries : List (String × Value))
  | array (view : ArrayView)
  | hash (view : HashView)
  | callable (callable : Callable)
  | object (view : ObjectView)

namespace Value

instance : Inhabited Value := ⟨.nothing⟩

/-! ## What a value owns -/

mutual

def handles : Value → List Handle
  | .list items => handlesOfItems items
  | .mapping entries => handlesOfEntries entries
  | .array view => [view.cell]
  | .hash view => [view.cell]
  | .callable target => [target.anchor]
  | .object view => [view.reference]
  | .nothing | .bool _ | .int _ | .float _ | .text _ | .bytes _ => []

def handlesOfItems : List Value → List Handle
  | [] => []
  | v :: vs => handles v ++ handlesOfItems vs

def handlesOfEntries : List (String × Value) → List Handle
  | [] => []
  | (_, v) :: entries => handles v ++ handlesOfEntries entries

end

/-! ## Sorts -/

def typeName : Value → String
  | .nothing => "none"
  | .bool _ => "bool"
  | .int _ => "int"
  | .float _ => "float"
  | .text _ => "str"
  | .bytes _ => "bytes"
  | .list _ => "list"
  | .mapping _ => "mapping"
  | .array _ => "array"
  | .hash _ => "hash"
  | .callable _ => "callable"
  | .object _ => "object"

def isNothing : Value → Bool
  | .nothing => true
  | _ => false

def isView : Value → Bool
  | .array _ | .hash _ | .callable _ | .object _ => true
  | _ => false

/-! ## Parts -/

def bool? : Value → Option Bool
  | .bool b => some b
  | _ => none

def int? : Value → Option Int64
  | .int n => some n
  | _ => none

def float? : Value → Option Binary64
  | .float x => some x
  | .int n => some (.ofInt n.toInt)
  | _ => none

def text? : Value → Option String
  | .text s => some s
  | _ => none

def bytes? : Value → Option (List UInt8)
  | .bytes bs => some bs
  | .text s => some (Utf8.encode s)
  | _ => none

def list? : Value → Option (List Value)
  | .list items => some items
  | _ => none

def mapping? : Value → Option (Dict Value)
  | .mapping entries => some entries
  | _ => none

/-- `nothing`, false, zero, the empty string and `0` are false. -/
def isTrue : Value → Bool
  | .nothing => false
  | .bool b => b
  | .int n => n ≠ 0
  | .float x => !x.isZero
  | .text s => s ≠ "" && s ≠ "0"
  | .bytes bs => bs ≠ [] && bs ≠ Utf8.encode "0"
  | _ => true

/-! ## Making values -/

/-- A mapping in which a repeated key keeps its first place and its last value. -/
def ofPairs (pairs : List (String × Value)) : Value := .mapping (Dict.ofPairs pairs)

def ofOption : Option Value → Value
  | some v => v
  | none => .nothing

/-! ## Texts of values -/

def callableText : Callable → String
  | .code cell => s!"CODE({cell.cell.index})"
  | .method _ name => s!"METHOD({name})"

mutual

def display : Value → String
  | .nothing => "undef"
  | .bool b => if b then "true" else "false"
  | .int n => toString n.toInt
  | .float x => Binary64.write Binary64.plainStyle x
  | .text s => Quoted.quote s
  | .bytes bs => "b" ++ Quoted.quote (Utf8.decodeLossy bs)
  | .list items => "[" ++ ", ".intercalate (displayItems items) ++ "]"
  | .mapping entries => "\x7b" ++ ", ".intercalate (displayEntries entries) ++ "\x7d"
  | .array view => s!"ARRAY({view.cell.cell.display})"
  | .hash view => s!"HASH({view.cell.cell.display})"
  | .callable target => callableText target
  | .object view => s!"{view.className}=({view.reference.cell.display})"

def displayItems : List Value → List String
  | [] => []
  | v :: vs => display v :: displayItems vs

def displayEntries : List (String × Value) → List String
  | [] => []
  | (key, v) :: entries => (Quoted.quote key ++ ": " ++ display v) :: displayEntries entries

end

end Value

end Embedding
