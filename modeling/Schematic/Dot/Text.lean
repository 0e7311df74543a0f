import Schematic.Text.Blank

/-! Pieces of DOT text: quoted strings, colours and attribute lists. -/

namespace Schematic.Dot

/-- Writes a double quote inside a quoted string as `\"`; every other character is written as it is. -/
def escapeQuotes (s : String) : String :=
  String.ofList (s.toList.flatMap fun c => if c = '"' then ['\\', '"'] else [c])

/-- A text between double quotes. -/
def quoted (s : String) : String := "\"" ++ s ++ "\""

/-- A colour without the quotes it may carry, for use inside a quoted string. -/
def bare (colour : String) : String := Text.trimWhere (· == '"') colour

/-- An attribute as statements of edges have it, `key = value`. -/
def assign (key value : String) : String := key ++ " = " ++ value

/-- A whole line at some depth of nesting. -/
def line (pad body : String) : String := pad ++ body ++ "\n"

/-- The mark that opens a block. -/
def opening : String := " \x7b"

/-- The mark that closes a block. -/
def closing : String := "\x7d"

end Schematic.Dot
