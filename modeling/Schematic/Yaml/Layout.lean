import Schematic.Yaml.Property
import Schematic.Yaml.Scalar
import Schematic.Yaml.Token

/-! The tokens of a text. Two things can not be seen where they begin: that something is the key of a
    mapping, which only the colon after it shows, and that a block ends, which only the indentation
    of what follows shows. So the places where a key may have begun are kept until a colon comes or
    can not come any more, and the open blocks are kept with their columns. -/

namespace Schematic.Yaml

/-- A place where a key may have begun. -/
structure KeyStart where
  /-- How many tokens come before. -/
  position : Nat
  /-- Nothing else than a key may begin here. -/
  required : Bool
  line : Nat
  column : Nat
  index : Nat

structure Layout where
  cursor : Cursor
  tokens : Array Token := #[]
  /-- The column of the innermost open block, -1 outside of all blocks. -/
  indent : Int := -1
  /-- The columns of the blocks around it. -/
  outer : List Int := []
  /-- A key may begin at the next token. -/
  keyAllowed : Bool := true
  /-- For the block and for each open bracket, innermost first, the place where a key may have
      begun. -/
  keys : List (Option KeyStart) := [none]

namespace Layout

/-- Between brackets or braces indentation means nothing. -/
def inFlow (l : Layout) : Bool := 1 < l.keys.length

def emit (l : Layout) (t : Token) : Layout := { l with tokens := l.tokens.push t }

def moveTo (l : Layout) (c : Cursor) : Layout := { l with cursor := c }

def allowKey (l : Layout) (b : Bool) : Layout := { l with keyAllowed := b }

/-! ### Blocks -/

/-- Closes the blocks to the right of a column. -/
def closeBlocks (l : Layout) (column : Int) : Layout :=
  if l.inFlow then l else go l.outer l
where
  go : List Int → Layout → Layout
    | [], l => l
    | i :: is, l => if column < l.indent then go is { l.emit .blockEnd with indent := i, outer := is } else l

/-- Opens a block at a column to the right of the innermost one, with its first token at
    `position`. -/
def openBlock (l : Layout) (column : Nat) (position : Nat) (t : Token) : Layout :=
  if l.inFlow || column ≤ l.indent then l
  else
    { l with
      tokens := l.tokens.insertIdxIfInBounds position t
      indent := column
      outer := l.indent :: l.outer }

/-! ### Places of keys -/

/-- Gives up the innermost place of a key. -/
def dropKey (l : Layout) : Option Layout :=
  match l.keys with
  | some k :: ks => if k.required then none else some { l with keys := none :: ks }
  | _ => some l

/-- Notes that a key may begin here. -/
def noteKey (l : Layout) : Option Layout :=
  if !l.keyAllowed then some l
  else do
    let l ← l.dropKey
    let here : KeyStart :=
      { position := l.tokens.size
        required := !l.inFlow && l.indent = l.cursor.column
        line := l.cursor.line
        column := l.cursor.column
        index := l.cursor.index }
    pure { l with keys := some here :: l.keys.tail }

/-- A key has to end on the line where it begins, after at most 1024 characters. -/
def isStale (l : Layout) (k : KeyStart) : Bool :=
  k.line < l.cursor.line || k.index + 1024 < l.cursor.index

/-- Gives up the places of keys that are too far back. -/
def dropStaleKeys (l : Layout) : Option Layout :=
  if l.keys.any fun k => k.any fun k => l.isStale k && k.required then none
  else some { l with keys := l.keys.map (·.filter fun k => !l.isStale k) }

/-! ### From token to token -/

/-- Goes past blanks, comments and breaks. -/
def skipToToken : Nat → Layout → Layout
  | 0, l => l
  | fuel + 1, l =>
    let c := if l.cursor.index = 0 && l.cursor.at? '\ufeff' then l.cursor.skip else l.cursor
    let tabs := l.inFlow || !l.keyAllowed
    let c := (c.skipWhile fun x => x = ' ' || (tabs && x = '\t')).skipComment
    match c.readBreak? with
    | some (_, c) => skipToToken fuel { l with cursor := c, keyAllowed := !l.inFlow || l.keyAllowed }
    | none => l.moveTo c

/-- The end of the text ends all blocks. -/
def readEnd (l : Layout) : Option Layout := do
  let l := l.closeBlocks (-1)
  let l ← l.dropKey
  pure ((l.allowKey false).emit .streamEnd)

/-- A directive, or the mark at the start or the end of a document. -/
def readDocumentPart (l : Layout) (read : Cursor → Option (Token × Cursor)) : Option Layout := do
  let l ← (l.closeBlocks (-1)).dropKey
  let (t, c) ← read l.cursor
  pure (((l.allowKey false).moveTo c).emit t)

/-- An opening bracket or brace. -/
def readOpening (l : Layout) (t : Token) : Option Layout := do
  let l ← l.noteKey
  pure ({ l.emit t with keys := none :: l.keys, keyAllowed := true }.moveTo l.cursor.skip)

/-- A closing bracket or brace. -/
def readClosing (l : Layout) (t : Token) : Option Layout := do
  let l ← l.dropKey
  let keys := if l.inFlow then l.keys.tail else l.keys
  pure ({ l.emit t with keys, keyAllowed := false }.moveTo l.cursor.skip)

/-- A comma between brackets or braces. -/
def readComma (l : Layout) : Option Layout := do
  let l ← l.dropKey
  pure (((l.allowKey true).moveTo l.cursor.skip).emit .flowEntry)

/-- A dash in front of an item. -/
def readDash (l : Layout) : Option Layout := do
  if !l.inFlow && !l.keyAllowed then none
  let l ← (l.openBlock l.cursor.column l.tokens.size .blockSequence).dropKey
  pure (((l.allowKey true).moveTo l.cursor.skip).emit .blockEntry)

/-- A question mark in front of a key. -/
def readQuestion (l : Layout) : Option Layout := do
  if !l.inFlow && !l.keyAllowed then none
  let l ← (l.openBlock l.cursor.column l.tokens.size .blockMapping).dropKey
  pure (((l.allowKey !l.inFlow).moveTo l.cursor.skip).emit .key)

/-- A colon in front of a value. If a key may have begun before it, then it has. -/
def readColon (l : Layout) : Option Layout :=
  match l.keys with
  | some k :: ks =>
    let l := { l with tokens := l.tokens.insertIdxIfInBounds k.position .key, keys := none :: ks }
    let l := l.openBlock k.column k.position .blockMapping
    some (((l.allowKey false).moveTo l.cursor.skip).emit .value)
  | _ => do
    if !l.inFlow && !l.keyAllowed then none
    let l := l.openBlock l.cursor.column l.tokens.size .blockMapping
    pure (((l.allowKey !l.inFlow).moveTo l.cursor.skip).emit .value)

/-- Something that may be a key: a reference, a property or a scalar on one line. -/
def readKeyLike (l : Layout) (read : Cursor → Option (Token × Cursor)) : Option Layout := do
  let l ← l.noteKey
  let (t, c) ← read l.cursor
  pure (((l.allowKey false).moveTo c).emit t)

/-- A block scalar. -/
def readBlockScalar (l : Layout) (folded : Bool) : Option Layout := do
  let l ← l.dropKey
  let (text, c) ← readBlock folded l.indent l.cursor
  pure (((l.allowKey true).moveTo c).emit (.scalar text (if folded then .folded else .literal)))

/-- A plain scalar. Where it ends at the end of a line a key may follow. -/
def readPlainScalar (l : Layout) : Option Layout := do
  let l ← l.noteKey
  let (text, lineEnded, c) ← readPlain l.inFlow (l.indent + 1) l.cursor
  pure (((l.allowKey lineEnded).moveTo c).emit (.scalar text .plain))

/-- The characters that no plain scalar begins with. -/
def isIndicator (c : Char) : Bool :=
  ['-', '?', ':', ',', '[', ']', '\x7b', '\x7d', '#', '&', '*', '!', '|', '>', '\'', '"', '%', '@',
    '\x60'].contains c

/-- A plain scalar begins with `x` when `next` follows. -/
def startsPlain (flow : Bool) (x : Char) (next : List Char) : Bool :=
  !(isSpacing x || isBreak x || isIndicator x)
    || (x = '-' && !next.head?.any isSpacing)
    || (!flow && (x = '?' || x = ':') && !endsWord next)

/-- A mark of three characters at the start of a line. -/
def readMark (t : Token) (c : Cursor) : Option (Token × Cursor) := some (t, c.advance 3)

/-- Reads the next token, together with those that it brings along. -/
def readToken (l : Layout) (x : Char) (next : List Char) : Option Layout :=
  if l.cursor.column = 0 && x = '%' then l.readDocumentPart readDirective
  else if l.cursor.atMark '-' then l.readDocumentPart (readMark .documentStart)
  else if l.cursor.atMark '.' then l.readDocumentPart (readMark .documentEnd)
  else if x = '[' then l.readOpening .flowSequence
  else if x = '\x7b' then l.readOpening .flowMapping
  else if x = ']' then l.readClosing .flowSequenceEnd
  else if x = '\x7d' then l.readClosing .flowMappingEnd
  else if x = ',' then l.readComma
  else if x = '-' && endsWord next then l.readDash
  else if x = '?' && (l.inFlow || endsWord next) then l.readQuestion
  else if x = ':' && (l.inFlow || endsWord next) then l.readColon
  else if x = '*' then
    l.readKeyLike fun c => (readName c).map fun (name, c) => (.ref name, c)
  else if x = '&' then
    l.readKeyLike fun c => (readName c).map fun (name, c) => (.anchor name, c)
  else if x = '!' then l.readKeyLike (readTag l.inFlow)
  else if x = '|' && !l.inFlow then l.readBlockScalar false
  else if x = '>' && !l.inFlow then l.readBlockScalar true
  else if x = '\'' || x = '"' then
    l.readKeyLike fun c => (readQuoted x c).map fun (text, c) => (.scalar text .quoted, c)
  else if startsPlain l.inFlow x next then l.readPlainScalar
  else none

/-- Reads all tokens. -/
def readAll : Nat → Layout → Option (Array Token)
  | 0, _ => none
  | fuel + 1, l => do
    let l ← (skipToToken (l.cursor.rest.length + 1) l).dropStaleKeys
    let l := l.closeBlocks l.cursor.column
    match l.cursor.rest with
    | [] => (·.tokens) <$> l.readEnd
    | x :: next => readAll fuel (← l.readToken x next)

end Layout

/-- The tokens of a text, or nothing if the text has none. -/
def tokens? (s : String) : Option (List Token) := do
  if !s.toList.all isAllowed then none
  let ts ← Layout.readAll (s.length + 2) { cursor := { rest := s.toList } }
  pure ts.toList

end Schematic.Yaml
