/-!
# Lines

A text is cut into lines at its line feeds. A carriage return at the end of a line is no part of it.
-/

namespace Parametric.Text

/-- A line without the carriage return at its end. -/
def dropReturn (line : List Char) : List Char :=
  if line.getLast? = some '\r' then line.dropLast else line

/-- The lines of a text, each cut off at a line feed, and the last one at the end. -/
def cut : List Char → List (List Char)
  | [] => [[]]
  | c :: cs =>
    if c = '\n' then [] :: cut cs
    else match cut cs with
      | [] => [[c]]
      | line :: rest => (c :: line) :: rest

def lines (s : String) : List String :=
  (cut s.toList).map fun line => String.ofList (dropReturn line)

end Parametric.Text
