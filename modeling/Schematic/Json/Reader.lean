import Schematic.Json.Number

/-! Reading JSON texts. Reading never fails: where the text stops being JSON, the value says so. -/

namespace Schematic.Json

def isSpace (c : Char) : Bool := c = ' ' || c = '\n' || c = '\t' || c = '\r'

def skipSpace (cs : List Char) : List Char := cs.dropWhile isSpace

/-! ### Strings -/

/-- The value of a hexadecimal digit. -/
def hexDigit? (c : Char) : Option Nat :=
  if '0' ≤ c ∧ c ≤ '9' then some (c.toNat - '0'.toNat)
  else if 'a' ≤ c ∧ c ≤ 'f' then some (c.toNat - 'a'.toNat + 10)
  else if 'A' ≤ c ∧ c ≤ 'F' then some (c.toNat - 'A'.toNat + 10)
  else none

/-- The number that four hexadecimal digits spell. -/
def hexUnit? (a b c d : Char) : Option Nat := do
  pure (((← hexDigit? a) * 16 + (← hexDigit? b)) * 256 + ((← hexDigit? c) * 16 + (← hexDigit? d)))

/-- The first of two units that make up one character. -/
def isLead (n : Nat) : Bool := 0xD800 ≤ n && n < 0xDC00

/-- The second of two units that make up one character. -/
def isTrail (n : Nat) : Bool := 0xDC00 ≤ n && n < 0xE000

/-- The character that a unit stands for, alone or with the unit after it. -/
def unitChar? (n : Nat) (next : Option Nat) : Option Char :=
  if isLead n then
    match next with
    | some m => if isTrail m then some (Char.ofNat (0x10000 + (n - 0xD800) * 0x400 + (m - 0xDC00)))
      else none
    | none => none
  else if isTrail n then none
  else some (Char.ofNat n)

/-- The character that a letter stands for after a backslash. -/
def escaped? (c : Char) : Option Char :=
  match c with
  | '"' => some '"'
  | '\\' => some '\\'
  | '/' => some '/'
  | 'b' => some '\x08'
  | 'f' => some '\x0c'
  | 'n' => some '\n'
  | 'r' => some '\r'
  | 't' => some '\t'
  | _ => none

/-- Reads a string from behind its first quote. `done` holds what was read, last character first. -/
def readString (done : List Char) : List Char → Option (String × List Char)
  | [] => none
  | '"' :: r => some (String.ofList done.reverse, r)
  | '\\' :: 'u' :: a :: b :: c :: d :: r =>
    match hexUnit? a b c d with
    | none => none
    | some n =>
      if isLead n then
        match r with
        | '\\' :: 'u' :: e :: f :: g :: h :: r' =>
          match unitChar? n (hexUnit? e f g h) with
          | some x => readString (x :: done) r'
          | none => none
        | _ => none
      else
        match unitChar? n none with
        | some x => readString (x :: done) r
        | none => none
  | '\\' :: c :: r =>
    match escaped? c with
    | some x => readString (x :: done) r
    | none => none
  | c :: r => if c = '\\' ∨ c.val < 0x20 then none else readString (c :: done) r

/-! ### Values -/

/-- Reads a fixed word. -/
def readWord (word : List Char) (v : Value) (cs : List Char) : Value × Option (List Char) :=
  if word.isPrefixOf cs then (v, some (cs.drop word.length)) else (.broken, none)

/-- Reads a string or a number or a word. -/
def readScalar (cs : List Char) : Value × Option (List Char) :=
  match cs with
  | '"' :: r =>
    match readString [] r with
    | some (s, r) => (.text s, some r)
    | none => (.broken, none)
  | 'n' :: r => readWord ['u', 'l', 'l'] .null r
  | 't' :: r => readWord ['r', 'u', 'e'] (.bool true) r
  | 'f' :: r => readWord ['a', 'l', 's', 'e'] (.bool false) r
  | cs =>
    match readNumber? cs with
    | some (n, r) => (.number n, some r)
    | none => (.broken, none)

mutual

/-- Reads a value and gives what follows it, unless the text stops being JSON inside the value. -/
def readValue : Nat → List Char → Value × Option (List Char)
  | 0, _ => (.broken, none)
  | fuel + 1, cs =>
    match skipSpace cs with
    | '[' :: r =>
      match skipSpace r with
      | ']' :: r => (.list [] true, some r)
      | r => readItems fuel [] r
    | '\x7b' :: r =>
      match skipSpace r with
      | '\x7d' :: r => (.record [] .closed, some r)
      | r => readMembers fuel [] r
    | cs => readScalar cs

/-- Reads the items of a list from the start of one on; `done` holds those before it, last first. -/
def readItems : Nat → List Value → List Char → Value × Option (List Char)
  | 0, done, _ => (.list done.reverse false, none)
  | fuel + 1, done, cs =>
    match readValue fuel cs with
    | (v, none) => (.list (v :: done).reverse false, none)
    | (v, some r) =>
      match skipSpace r with
      | ']' :: r => (.list (v :: done).reverse true, some r)
      | ',' :: r =>
        match skipSpace r with
        | ']' :: _ => (.list (v :: done).reverse false, none)
        | r => readItems fuel (v :: done) r
      | _ => (.list (v :: done).reverse false, none)

/-- Reads the members of a record from the start of a key on; `done` holds those before it, last
    first. -/
def readMembers : Nat → List (String × Value) → List Char → Value × Option (List Char)
  | 0, done, _ => (.record done.reverse .cut, none)
  | fuel + 1, done, cs =>
    match skipSpace cs with
    | '"' :: r =>
      match readString [] r with
      | none => (.record done.reverse .cut, none)
      | some (key, r) =>
        match skipSpace r with
        | ':' :: r =>
          match readValue fuel r with
          | (v, none) => (.record ((key, v) :: done).reverse .cut, none)
          | (v, some r) =>
            match skipSpace r with
            | '\x7d' :: r => (.record ((key, v) :: done).reverse .closed, some r)
            | ',' :: r => readMembers fuel ((key, v) :: done) r
            | _ => (.record ((key, v) :: done).reverse .cut, none)
        | _ => (.record ((key, .broken) :: done).reverse .cut, none)
    | r => (.record done.reverse (.stray (readValue fuel r).1), none)

end

/-- A whole text as a value, and whether nothing but space follows the value. -/
def readText (s : String) : Value × Bool :=
  match readValue (s.length + 1) s.toList with
  | (v, none) => (v, false)
  | (v, some r) => (v, (skipSpace r).isEmpty)

end Schematic.Json
