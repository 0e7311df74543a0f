/-! A place in a YAML text, and the classes of characters that YAML tells apart. -/

namespace Schematic.Yaml

/-- The text from some place on, with the line and the column of the place. -/
structure Cursor where
  rest : List Char
  /-- How many characters come before. -/
  index : Nat := 0
  line : Nat := 0
  column : Nat := 0

/-- The characters that a text may have at all. -/
def isAllowed (c : Char) : Bool :=
  c = '\t' || c = '\n' || c = '\r' || (0x20 ≤ c.val && c.val ≤ 0x7E) || c.val = 0x85
    || (0xA0 ≤ c.val && c.val ≤ 0xFFFD) || 0x10000 ≤ c.val

def isSpacing (c : Char) : Bool := c = ' ' || c = '\t'

/-- Breaks that are all written as a line feed. -/
def isPlainBreak (c : Char) : Bool := c = '\r' || c = '\n' || c.val = 0x85

/-- Breaks that are written as they are. -/
def isKeptBreak (c : Char) : Bool := c.val = 0x2028 || c.val = 0x2029

def isBreak (c : Char) : Bool := isPlainBreak c || isKeptBreak c

/-- The characters of names: letters, digits, `_` and `-`, in ASCII. -/
def isNameChar (c : Char) : Bool := c.isAlphanum || c = '_' || c = '-'

/-- What stands first is a space, a tab, a break or the end. -/
def endsWord (cs : List Char) : Bool :=
  match cs with
  | [] => true
  | c :: _ => isSpacing c || isBreak c

/-- What stands first is a break or the end. -/
def endsLine (cs : List Char) : Bool :=
  match cs with
  | [] => true
  | c :: _ => isBreak c

namespace Cursor

/-- The next character is `x`. -/
def at? (c : Cursor) (x : Char) : Bool := c.rest.head? = some x

/-- Goes past one character. -/
def skip (c : Cursor) : Cursor :=
  { c with rest := c.rest.tail, index := c.index + 1, column := c.column + 1 }

/-- Goes past some characters of a line. -/
def advance (c : Cursor) (n : Nat) : Cursor :=
  { c with rest := c.rest.drop n, index := c.index + n, column := c.column + n }

/-- Goes past the characters satisfying `p`. -/
def skipWhile (p : Char → Bool) (c : Cursor) : Cursor := c.advance (c.rest.takeWhile p).length

/-- Goes past a break, and gives the character that it is written as. -/
def readBreak? (c : Cursor) : Option (Char × Cursor) :=
  let next (n : Nat) : Cursor :=
    { rest := c.rest.drop n, index := c.index + n, line := c.line + 1, column := 0 }
  match c.rest with
  | '\r' :: '\n' :: _ => some ('\n', next 2)
  | x :: _ => if isPlainBreak x then some ('\n', next 1) else if isKeptBreak x then some (x, next 1) else none
  | [] => none

/-- Goes past a break if there is one. -/
def skipBreak (c : Cursor) : Cursor :=
  match c.readBreak? with
  | some (_, c) => c
  | none => c

/-- Goes past a comment if there is one. -/
def skipComment (c : Cursor) : Cursor :=
  if c.at? '#' then c.skipWhile (!isBreak ·) else c

/-- Three times the character `x` at the start of a line, and nothing else in the word. -/
def atMark (c : Cursor) (x : Char) : Bool :=
  c.column = 0 && [x, x, x].isPrefixOf c.rest && endsWord (c.rest.drop 3)

/-- A mark that begins or ends a document. -/
def atDocumentMark (c : Cursor) : Bool := c.atMark '-' || c.atMark '.'

end Cursor

end Schematic.Yaml
