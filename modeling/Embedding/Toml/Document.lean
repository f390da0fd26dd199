import Embedding.Toml.Plain
import Embedding.Toml.Table
import Embedding.Toml.Text

/-!
# Reading TOML documents

A document is a sequence of lines. Each is blank, a header or an entry, and may end with a comment.
-/

namespace Embedding.Toml

/-- How many parts a key may have, and how deeply arrays and braces may nest. -/
def maxDepth : Nat := 79

def skipSpaces (cs : List Char) : List Char := cs.dropWhile isSpace

/-- The characters behind white space, line ends and comments. -/
def skipBlank (inComment : Bool) : List Char → List Char
  | [] => []
  | '\n' :: rest | '\r' :: '\n' :: rest => skipBlank false rest
  | c :: rest =>
    if inComment then if isPrintable c then skipBlank true rest else c :: rest
    else if c = '#' then skipBlank true rest
    else if isSpace c then skipBlank false rest
    else c :: rest

/-- The characters behind the end of a line, which a comment may precede. -/
def lineEnd (cs : List Char) : Option (List Char) :=
  let cs := match skipSpaces cs with
    | '#' :: comment => comment.dropWhile isPrintable
    | cs => cs
  match cs with
  | [] => some []
  | '\n' :: rest | '\r' :: '\n' :: rest => some rest
  | _ => none

/-! ## Keys -/

def isBare (c : Char) : Bool := c.isAlphanum || c = '_' || c = '-'

def keyPart (cs : List Char) : Read String :=
  match cs with
  | '"' :: rest => (basic rest).map fun (content, rest) => (String.ofList content, rest)
  | '\'' :: rest => (literal rest).map fun (content, rest) => (String.ofList content, rest)
  | _ =>
    let part := cs.takeWhile isBare
    if part = [] then none else some (String.ofList part, cs.dropWhile isBare)

/-- A key of at most `depth` parts with points between them: the parts but the last, and the last. -/
def key : (depth : Nat) → List Char → Read (List String × String)
  | 0, _ => none
  | depth + 1, cs =>
    match keyPart (skipSpaces cs) with
    | none => none
    | some (part, rest) =>
      match skipSpaces rest with
      | '.' :: rest =>
        (key depth rest).map fun ((path, last), rest) => ((part :: path, last), rest)
      | rest => some (([], part), rest)

/-! ## Values -/

/-- The items of an array, from behind its opening bracket. -/
def items (value : List Char → Read Item) : (fuel : Nat) → List Char → Read (List Item)
  | 0, _ => none
  | fuel + 1, cs =>
    match skipBlank false cs with
    | ']' :: rest => some ([], rest)
    | cs =>
      match value cs with
      | none => none
      | some (item, rest) =>
        match skipBlank false rest with
        | ',' :: rest => (items value fuel rest).map fun (items, rest) => (item :: items, rest)
        | ']' :: rest => some ([item], rest)
        | _ => none

def entry (value : List Char → Read Item) (cs : List Char) : Read (List String × String × Item) :=
  match key maxDepth cs with
  | some ((path, last), '=' :: rest) =>
    (value (skipSpaces rest)).map fun (item, rest) => ((path, last, item), rest)
  | _ => none

/-- The entries of a table in braces, from behind the brace or a comma. -/
def braced (value : List Char → Read Item) : (fuel : Nat) → Dict Item → List Char → Read (Dict Item)
  | 0, _, _ => none
  | fuel + 1, entries, cs =>
    match entry value cs with
    | none => none
    | some ((path, last, item), rest) =>
      match store last item path entries with
      | none => none
      | some entries =>
        match skipSpaces rest with
        | ',' :: rest => braced value fuel entries rest
        | '\x7d' :: rest => some (entries, rest)
        | _ => none

/-- Truth values, and numbers, dates and times. -/
def plain (cs : List Char) : Read Item :=
  let run := cs.takeWhile isPlain
  if run = "true".toList then some (.bool true, cs.dropWhile isPlain)
  else if run = "false".toList then some (.bool false, cs.dropWhile isPlain)
  else (takePlain cs).map fun rest => (.plain, rest)

/-- A value whose arrays and braces nest at most `depth` levels deep. -/
def value : (depth : Nat) → List Char → Read Item
  | depth, cs =>
    match cs with
    | '"' :: _ | '\'' :: _ => (text cs).map fun (s, rest) => (.text s, rest)
    | '[' :: rest =>
      match depth with
      | 0 => none
      | depth + 1 =>
        (items (value depth) (rest.length + 1) rest).map fun (items, rest) => (.array items, rest)
    | '\x7b' :: rest =>
      match depth with
      | 0 => none
      | depth + 1 =>
        match skipSpaces rest with
        | '\x7d' :: rest => some (.table .braces [], rest)
        | _ =>
          (braced (value depth) (rest.length + 1) [] rest).map fun (entries, rest) =>
            (.table .braces entries, rest)
    | _ => plain cs

/-! ## Lines -/

/-- A header, from behind its opening brackets to before its closing ones. -/
def header (make : List String → String → Statement) (cs : List Char) : Read Statement :=
  (key maxDepth cs).map fun ((path, last), rest) => (make path last, rest)

/-- What a line says, nothing if it is blank, and the characters behind the line. -/
def line (cs : List Char) : Read (Option Statement) :=
  let ended (statement : Statement) (rest : List Char) : Read (Option Statement) :=
    (lineEnd rest).map fun rest => (some statement, rest)
  match skipSpaces cs with
  | '[' :: '[' :: rest =>
    match header .element rest with
    | some (statement, ']' :: ']' :: rest) => ended statement rest
    | _ => none
  | '[' :: rest =>
    match header .header rest with
    | some (statement, ']' :: rest) => ended statement rest
    | _ => none
  | cs =>
    match lineEnd cs with
    | some rest => some (none, rest)
    | none =>
      match entry (value maxDepth) cs with
      | some ((path, last, item), rest) => ended (.entry path last item) rest
      | none => none

/-- The document after the lines of a text. Every line takes a character, so `fuel` need not exceed
their number. -/
def readLines : (fuel : Nat) → Document → List Char → Option Document
  | _, d, [] => some d
  | 0, _, _ => none
  | fuel + 1, d, cs =>
    match line cs with
    | none => none
    | some (none, rest) => readLines fuel d rest
    | some (some statement, rest) =>
      match d.add statement with
      | none => none
      | some d => readLines fuel d rest

/-- The entries of a document, `none` if it is not well formed. A byte order mark may come first. -/
def read (text : String) : Option (Dict Item) :=
  let cs := match text.toList with
    | '\ufeff' :: cs => cs
    | cs => cs
  (readLines cs.length {} cs).map (·.entries)

end Embedding.Toml
