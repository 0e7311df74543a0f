import Schematic.Json.Value

/-! Writing values as JSON texts, with no space between anything. -/

namespace Schematic.Json

/-- A character as it stands in a string. What can not stand for itself has a backslash in front, and
    a letter or the number of the character behind it. -/
def escapedChar (c : Char) : List Char :=
  if c = '"' then ['\\', '"']
  else if c = '\\' then ['\\', '\\']
  else if c = '\x08' then ['\\', 'b']
  else if c = '\x0c' then ['\\', 'f']
  else if c = '\n' then ['\\', 'n']
  else if c = '\r' then ['\\', 'r']
  else if c = '\t' then ['\\', 't']
  else if c.val < 0x20 then
    ['\\', 'u', '0', '0', Nat.digitChar (c.toNat / 16), Nat.digitChar (c.toNat % 16)]
  else [c]

/-- A text as it stands in a string, without the quotes. -/
def escaped (cs : List Char) : List Char := cs.flatMap escapedChar

def quoted (s : String) : List Char := '"' :: (escaped s.toList ++ ['"'])

def Number.chars : Number → List Char
  | .whole n => (toString n).toList
  | .real x => (Decimal.ofFloat x).toList

mutual

/-- The text of a value. Where a value shows that a text stopped being JSON, nothing is written. -/
def Value.chars : Value → List Char
  | .broken => []
  | .null => ['n', 'u', 'l', 'l']
  | .bool true => ['t', 'r', 'u', 'e']
  | .bool false => ['f', 'a', 'l', 's', 'e']
  | .number n => n.chars
  | .text s => quoted s
  | .list items _ => '[' :: (itemChars items ++ [']'])
  | .record members _ => '\x7b' :: (memberChars members ++ ['\x7d'])

/-- Items with commas between. -/
def itemChars : List Value → List Char
  | [] => []
  | [v] => v.chars
  | v :: vs => v.chars ++ ',' :: itemChars vs

/-- Members with commas between. -/
def memberChars : List (String × Value) → List Char
  | [] => []
  | [(key, v)] => quoted key ++ ':' :: v.chars
  | (key, v) :: ms => quoted key ++ ':' :: (v.chars ++ ',' :: memberChars ms)

end

end Schematic.Json
