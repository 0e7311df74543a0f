import Schematic.Yaml.Cursor
import Schematic.Yaml.Scalar
import Schematic.Yaml.Token

/-! What stands beside the contents of a document: anchors and the references to them, tags, and
    directives. -/

namespace Schematic.Yaml

/-! ### Anchors -/

/-- What may follow a name without a blank between. -/
def endsName (cs : List Char) : Bool :=
  endsWord cs || cs.head?.any (['?', ':', ',', ']', '\x7d', '%', '@', '\x60'].contains ·)

/-- Reads the name behind `&` or `*`. -/
def readName (c : Cursor) : Option (String × Cursor) :=
  let c := c.skip
  let name := c.rest.takeWhile isNameChar
  let c := c.advance name.length
  if name.isEmpty || !endsName c.rest then none else some (String.ofList name, c)

/-! ### Tags -/

/-- The characters of tags; some of them only where the tag is set off from what surrounds it. -/
def isTagChar (setOff : Bool) (c : Char) : Bool :=
  isNameChar c
    || [';', '/', '?', ':', '@', '&', '=', '+', '$', '.', '%', '!', '~', '*', '\'', '(', ')'].contains c
    || (setOff && [',', '[', ']'].contains c)

/-- The number of bytes of a character whose first byte this is. -/
def encodedSize? (lead : Nat) : Option Nat :=
  if lead < 0x80 then some 1
  else if lead / 0x20 = 0x6 then some 2
  else if lead / 0x10 = 0xE then some 3
  else if lead / 0x08 = 0x1E then some 4
  else none

/-- The byte that a percent sign and two hexadecimal digits stand for. -/
def readByte? : List Char → Option (Nat × List Char)
  | '%' :: a :: b :: r => do pure (16 * (← hexValue? a) + (← hexValue? b), r)
  | _ => none

/-- The further bytes of a character; `value` is made of the bits before them. -/
def readTrail? : Nat → Nat → List Char → Option (Nat × List Char)
  | 0, value, cs => some (value, cs)
  | n + 1, value, cs => do
    let (byte, cs) ← readByte? cs
    if byte / 0x40 = 2 then readTrail? n (0x40 * value + byte % 0x40) cs else none

/-- A character written as the bytes that encode it. -/
def readEncoded? (cs : List Char) : Option (Char × List Char) := do
  let (lead, cs) ← readByte? cs
  let size ← encodedSize? lead
  let bits := if size = 1 then lead else lead % Nat.pow 2 (7 - size)
  let (value, cs) ← readTrail? (size - 1) bits cs
  pure (Char.ofNat value, cs)

/-- Reads the characters of a tag; `done` are those read, last first. -/
def readTagChars (setOff : Bool) : Nat → List Char → List Char → Option (List Char × List Char)
  | 0, _, _ => none
  | fuel + 1, done, cs =>
    match cs with
    | [] => some (done.reverse, [])
    | x :: r =>
      if !isTagChar setOff x then some (done.reverse, cs)
      else if x = '%' then do
        let (y, r) ← readEncoded? cs
        readTagChars setOff fuel (y :: done) r
      else readTagChars setOff fuel (x :: done) r

/-- Reads the characters of a tag from a place on. -/
def readTagText (setOff : Bool) (c : Cursor) : Option (List Char × Cursor) := do
  let (cs, rest) ← readTagChars setOff (c.rest.length + 1) [] c.rest
  pure (cs, c.advance (c.rest.length - rest.length))

/-- Reads `!`, `!name!` or, up to where the name ends, `!name`. -/
def readHandle (c : Cursor) : Option (List Char × Cursor) :=
  if !c.at? '!' then none
  else
    let name := c.skip.rest.takeWhile isNameChar
    let c := c.skip.advance name.length
    if c.at? '!' then some ('!' :: name ++ ['!'], c.skip) else some ('!' :: name, c)

/-- The handle is closed by a second `!`. -/
def isClosedHandle (handle : List Char) : Bool := 1 < handle.length && handle.getLast? = some '!'

/-- Reads a tag from its `!` on. -/
def readTag (flow : Bool) (c : Cursor) : Option (Token × Cursor) := do
  let (token, c) ←
    if c.skip.at? '<' then do
      let (text, c) ← readTagText true (c.advance 2)
      if text.isEmpty || !c.at? '>' then none
      pure (Token.tag "" (String.ofList text), c.skip)
    else do
      let (handle, c) ← readHandle c
      let (text, c) ← readTagText false c
      if isClosedHandle handle then
        if text.isEmpty then none
        pure (Token.tag (String.ofList handle) (String.ofList text), c)
      else
        let rest := handle.tail ++ text
        pure (if rest.isEmpty then Token.tag "" "!" else Token.tag "!" (String.ofList rest), c)
  if endsWord c.rest || (flow && c.at? ',') then pure (token, c) else none

/-! ### Directives -/

/-- Reads a decimal number of at most nine digits. -/
def readVersionNumber (c : Cursor) : Option (Nat × Cursor) :=
  let ds := c.rest.takeWhile Char.isDigit
  if ds.isEmpty || 9 < ds.length then none
  else some (ds.foldl (fun n d => 10 * n + (d.toNat - '0'.toNat)) 0, c.advance ds.length)

/-- Reads `major.minor`. -/
def readVersion (c : Cursor) : Option (Token × Cursor) := do
  let (major, c) ← readVersionNumber (c.skipWhile isSpacing)
  if !c.at? '.' then none
  let (minor, c) ← readVersionNumber c.skip
  pure (.version major minor, c)

/-- Reads a handle and what it stands for. -/
def readTagHandle (c : Cursor) : Option (Token × Cursor) := do
  let (handle, c) ← readHandle (c.skipWhile isSpacing)
  if !(handle = ['!'] || isClosedHandle handle) then none
  if !c.rest.head?.any isSpacing then none
  let (text, c) ← readTagText true (c.skipWhile isSpacing)
  if text.isEmpty || !endsWord c.rest then none
  pure (.tagHandle (String.ofList handle) (String.ofList text), c)

/-- Reads a directive from its `%` to the end of its line. -/
def readDirective (c : Cursor) : Option (Token × Cursor) := do
  let name := c.skip.rest.takeWhile isNameChar
  let c := c.skip.advance name.length
  if name.isEmpty || !endsWord c.rest then none
  let (token, c) ←
    if name = ['Y', 'A', 'M', 'L'] then readVersion c
    else if name = ['T', 'A', 'G'] then readTagHandle c
    else none
  let c := (c.skipWhile isSpacing).skipComment
  if !endsLine c.rest then none
  pure (token, c.skipBreak)

end Schematic.Yaml
