import Schematic.Decimal.Shortest
import Schematic.Text.Quoted

/-! JSON texts as values. A text need not be JSON to its end: a value also shows where the text stops
    being JSON, so that whoever walks a value in the order of the text learns which comes first, a
    value that does not fit or the end of what can be read. -/

namespace Schematic.Json

inductive Number where
  | whole (n : Int)
  | real (x : Float)

/-- What follows the last member of a record. -/
inductive Ending (α : Type) where
  /-- The closing brace. -/
  | closed
  /-- Something that can not follow. -/
  | cut
  /-- A value that is no string, where a key should be. -/
  | stray (found : α)

inductive Value where
  /-- Here the text stops being JSON. -/
  | broken
  | null
  | bool (b : Bool)
  | number (n : Number)
  | text (s : String)
  /-- `closed` says whether the closing bracket follows the last item. -/
  | list (items : List Value) (closed : Bool)
  | record (members : List (String × Value)) (ending : Ending Value)

/-- How a number is shown in a message. -/
def Number.shown : Number → String
  | .whole n => "integer \x60" ++ toString n ++ "\x60"
  | .real x => "floating point \x60" ++ Decimal.ofFloat x ++ "\x60"

/-- How a value is shown in a message; `none` for what can not be read. -/
def Value.shown? : Value → Option String
  | .broken => none
  | .null => some "null"
  | .bool b => some ("boolean \x60" ++ (if b then "true" else "false") ++ "\x60")
  | .number n => some n.shown
  | .text s => some ("string " ++ Text.quote s)
  | .list _ _ => some "sequence"
  | .record _ _ => some "map"

end Schematic.Json
