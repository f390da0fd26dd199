import Embedding.Text.Digits

/-!
# Strings of a TOML document

A string is basic, with escapes, or literal, without; either may stand on one line or on several. Each
reader takes the characters behind the opening quotes and answers the content and what follows the
closing quotes.
-/

namespace Embedding.Toml

/-- What a reader answers: what it read, and the characters behind it. -/
abbrev Read (α : Type) := Option (α × List Char)

def isSpace (c : Char) : Bool := c = ' ' || c = '\t'

/-- Controls may stand nowhere, except the tab. -/
def isPrintable (c : Char) : Bool := c = '\t' || (0x20 ≤ c.toNat && c.toNat ≠ 0x7f)

def before (c : Char) (content : Read (List Char)) : Read (List Char) :=
  content.map fun (cs, rest) => (c :: cs, rest)

/-- The character that an escape of one letter stands for. -/
def escaped? : Char → Option Char
  | 'b' => some '\x08'
  | 't' => some '\t'
  | 'n' => some '\n'
  | 'f' => some '\x0c'
  | 'r' => some '\r'
  | '"' => some '"'
  | '\\' => some '\\'
  | _ => none

/-- The character whose code point hexadecimal digits write. -/
def codePoint? (digits : List Char) : Option Char := do
  let n ← Digits.hexadecimal? digits
  if h : n.isValidChar then some (Char.ofNatAux n h) else none

/-- A literal string on one line. -/
def literal : List Char → Read (List Char)
  | [] => none
  | '\'' :: rest => some ([], rest)
  | c :: rest => if isPrintable c then before c (literal rest) else none

/-- A basic string on one line. -/
def basic : List Char → Read (List Char)
  | [] => none
  | '"' :: rest => some ([], rest)
  | '\\' :: 'u' :: d₁ :: d₂ :: d₃ :: d₄ :: rest =>
    (codePoint? [d₁, d₂, d₃, d₄]).bind fun c => before c (basic rest)
  | '\\' :: 'U' :: d₁ :: d₂ :: d₃ :: d₄ :: d₅ :: d₆ :: d₇ :: d₈ :: rest =>
    (codePoint? [d₁, d₂, d₃, d₄, d₅, d₆, d₇, d₈]).bind fun c => before c (basic rest)
  | '\\' :: c :: rest => (escaped? c).bind fun c => before c (basic rest)
  | c :: rest => if c ≠ '\\' && isPrintable c then before c (basic rest) else none

/-- A literal string on several lines. Up to two quotes may stand before the closing ones. -/
def literalLines : List Char → Read (List Char)
  | [] => none
  | '\'' :: '\'' :: '\'' :: '\'' :: '\'' :: rest => some (['\'', '\''], rest)
  | '\'' :: '\'' :: '\'' :: '\'' :: rest => some (['\''], rest)
  | '\'' :: '\'' :: '\'' :: rest => some ([], rest)
  | '\r' :: '\n' :: rest => before '\n' (literalLines rest)
  | c :: rest => if c = '\n' || isPrintable c then before c (literalLines rest) else none

/-- Whether nothing but white space stands before the end of the line. -/
def lineEnds : List Char → Bool
  | '\n' :: _ | '\r' :: '\n' :: _ => true
  | c :: rest => isSpace c && lineEnds rest
  | [] => false

/-- A basic string on several lines. A backslash at the end of a line takes away the line end and all
white space behind it; `skipping` says that this is going on. -/
def basicLines (skipping : Bool) : List Char → Read (List Char)
  | [] => none
  | '"' :: '"' :: '"' :: '"' :: '"' :: rest => some (['"', '"'], rest)
  | '"' :: '"' :: '"' :: '"' :: rest => some (['"'], rest)
  | '"' :: '"' :: '"' :: rest => some ([], rest)
  | '\r' :: '\n' :: rest =>
    if skipping then basicLines true rest else before '\n' (basicLines false rest)
  | '\\' :: 'u' :: d₁ :: d₂ :: d₃ :: d₄ :: rest =>
    (codePoint? [d₁, d₂, d₃, d₄]).bind fun c => before c (basicLines false rest)
  | '\\' :: 'U' :: d₁ :: d₂ :: d₃ :: d₄ :: d₅ :: d₆ :: d₇ :: d₈ :: rest =>
    (codePoint? [d₁, d₂, d₃, d₄, d₅, d₆, d₇, d₈]).bind fun c => before c (basicLines false rest)
  | '\\' :: c :: rest =>
    if lineEnds (c :: rest) then basicLines true (c :: rest)
    else (escaped? c).bind fun c => before c (basicLines false rest)
  | c :: rest =>
    if skipping && (c = '\n' || isSpace c) then basicLines true rest
    else if c ≠ '\\' && (c = '\n' || isPrintable c) then before c (basicLines false rest)
    else none

/-- The characters behind the line end at the front, if one is there. -/
def skipLineEnd : List Char → List Char
  | '\n' :: rest | '\r' :: '\n' :: rest => rest
  | cs => cs

/-- A string of any sort, from its opening quotes on. -/
def text : List Char → Read String
  | '"' :: '"' :: '"' :: rest => (basicLines false (skipLineEnd rest)).map asText
  | '\'' :: '\'' :: '\'' :: rest => (literalLines (skipLineEnd rest)).map asText
  | '"' :: rest => (basic rest).map asText
  | '\'' :: rest => (literal rest).map asText
  | _ => none
where
  asText (content : List Char × List Char) : String × List Char :=
    (String.ofList content.1, content.2)

end Embedding.Toml
