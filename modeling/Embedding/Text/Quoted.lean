import Embedding.Text.Digits
import Embedding.Text.Escaped

/-!
# Quoted texts

A quoted text stands between double quotes. Quotes, backslashes and the common controls have short
escapes; other characters that do not show are written by their code point.
-/

namespace Embedding.Quoted

def escape (c : Char) : String :=
  if c = '\x00' then "\\0"
  else if c = '\t' then "\\t"
  else if c = '\r' then "\\r"
  else if c = '\n' then "\\n"
  else if c = '"' then "\\\""
  else if c = '\\' then "\\\\"
  else if Escaped.isEscaped c then "\\u\x7b" ++ Digits.hex c.toNat ++ "\x7d"
  else c.toString

def quote (s : String) : String := "\"" ++ String.join (s.toList.map escape) ++ "\""

end Embedding.Quoted
