import Parametric.Text.Hidden

/-!
# Quoted text

Characters and names inside messages are shown between quotes, with the quote itself, the
backslash and everything that does not show written as an escape.
-/

namespace Parametric.Text

/-- A code point as an escape in lower-case hexadecimal. -/
def escapeCode (c : Char) : String :=
  "\\u\x7b" ++ String.ofList (Nat.toDigits 16 c.toNat) ++ "\x7d"

/-- How `c` is written between quotes `quote`. -/
def escape (quote c : Char) : String :=
  if c = '\x00' then "\\0"
  else if c = '\t' then "\\t"
  else if c = '\r' then "\\r"
  else if c = '\n' then "\\n"
  else if c = '\\' || c = quote then "\\" ++ c.toString
  else if isHidden c then escapeCode c
  else c.toString

/-- A single character between single quotes. -/
def quoteChar (c : Char) : String :=
  "'" ++ escape '\'' c ++ "'"

def quoteString (s : String) : String :=
  "\"" ++ String.join (s.toList.map (escape '"')) ++ "\""

end Parametric.Text
