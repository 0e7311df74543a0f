import Schematic.Yaml.Cursor

/-! The texts of scalars. A scalar may run over several lines; what the breaks between them turn into
    hangs on how the scalar is written. -/

namespace Schematic.Yaml

/-! ### Folding of lines

    One break between two lines of text becomes a space, and of several the first one is dropped. -/

/-- A text under construction with the blanks and breaks that were last read. All characters are
    kept last first. -/
structure Folding where
  done : List Char := []
  blanks : List Char := []
  /-- A line has ended since the last character. -/
  broken : Bool := false
  /-- The break of that line, unless it was escaped. -/
  firstBreak : List Char := []
  laterBreaks : List Char := []

namespace Folding

/-- Turns the blanks and breaks that were read into text. -/
def settle (f : Folding) : Folding :=
  if f.broken then
    if f.firstBreak = ['\n'] then
      { done := if f.laterBreaks = [] then ' ' :: f.done else f.laterBreaks ++ f.done }
    else { done := f.laterBreaks ++ (f.firstBreak ++ f.done) }
  else { done := f.blanks ++ f.done }

def push (f : Folding) (x : Char) : Folding := { f with done := x :: f.done }

def addBlank (f : Folding) (x : Char) : Folding :=
  if f.broken then f else { f with blanks := x :: f.blanks }

def addBreak (f : Folding) (x : Char) : Folding :=
  if f.broken then { f with laterBreaks := x :: f.laterBreaks }
  else { f with blanks := [], broken := true, firstBreak := [x] }

def text (f : Folding) : String := String.ofList f.done.reverse

end Folding

/-- Reads blanks and breaks. A tab left of column `tabsFrom` is refused at the start of a line. -/
def readGap (tabsFrom : Int) : Nat → Folding → Cursor → Option (Folding × Cursor)
  | 0, _, _ => none
  | fuel + 1, f, c =>
    match c.rest with
    | [] => some (f, c)
    | x :: _ =>
      if isSpacing x then
        if f.broken && x = '\t' && c.column < tabsFrom then none
        else readGap tabsFrom fuel (f.addBlank x) c.skip
      else
        match c.readBreak? with
        | some (b, c) => readGap tabsFrom fuel (f.addBreak b) c
        | none => some (f, c)

/-! ### Plain scalars -/

/-- Characters that mean something inside brackets and braces. -/
def isFlowMark (c : Char) : Bool := c = ',' || c = '[' || c = ']' || c = '\x7b' || c = '\x7d'

/-- Reads the part of a plain scalar up to the next blank or break, or up to its end. -/
def readPlainWord (flow : Bool) : Nat → Folding → Cursor → Option (Folding × Cursor)
  | 0, _, _ => none
  | fuel + 1, f, c =>
    match c.rest with
    | [] => some (f, c)
    | x :: r =>
      if isSpacing x || isBreak x then some (f, c)
      else if flow && x = ':' && r.head?.any (fun y => isFlowMark y || y = '?') then none
      else if (x = ':' && endsWord r) || (flow && isFlowMark x) then some (f, c)
      else readPlainWord flow fuel (f.settle.push x) c.skip

/-- Reads a plain scalar, which needs to stand at `indent` or further right. -/
def readPlainLines (flow : Bool) (indent : Int) : Nat → Folding → Cursor → Option (Folding × Cursor)
  | 0, _, _ => none
  | fuel + 1, f, c =>
    if c.atDocumentMark || c.at? '#' then some (f, c)
    else do
      let (f, c) ← readPlainWord flow (c.rest.length + 1) f c
      match c.rest with
      | [] => some (f, c)
      | x :: _ =>
        if !(isSpacing x || isBreak x) then some (f, c)
        else do
          let (f, c) ← readGap indent (c.rest.length + 1) f c
          if !flow && c.column < indent then some (f, c)
          else readPlainLines flow indent fuel f c

/-- Reads a plain scalar; also tells whether a line has ended after it. -/
def readPlain (flow : Bool) (indent : Int) (c : Cursor) : Option (String × Bool × Cursor) := do
  let (f, c) ← readPlainLines flow indent (c.rest.length + 1) {} c
  pure (f.text, f.broken, c)

/-! ### Quoted scalars -/

def hexValue? (c : Char) : Option Nat :=
  if c.isDigit then some (c.toNat - '0'.toNat)
  else if 'a' ≤ c ∧ c ≤ 'f' then some (c.toNat - 'a'.toNat + 10)
  else if 'A' ≤ c ∧ c ≤ 'F' then some (c.toNat - 'A'.toNat + 10)
  else none

/-- The number that hexadecimal digits spell. -/
def ofHex? (cs : List Char) : Option Nat :=
  cs.foldl (fun n c => do pure (16 * (← n) + (← hexValue? c))) (some 0)

/-- The character that `digits` hexadecimal digits after an escape stand for. -/
def readCode? (digits : Nat) (c : Cursor) : Option (Char × Cursor) := do
  if c.rest.length < digits then none
  let n ← ofHex? (c.rest.take digits)
  if (0xD800 ≤ n ∧ n ≤ 0xDFFF) ∨ 0x10FFFF < n then none
  pure (Char.ofNat n, c.advance digits)

/-- The character that a letter stands for after a backslash. -/
def escapedChar? (x : Char) : Option Char :=
  match x with
  | '0' => some '\x00'
  | 'a' => some '\x07'
  | 'b' => some '\x08'
  | 't' => some '\t'
  | '\t' => some '\t'
  | 'n' => some '\n'
  | 'v' => some '\x0b'
  | 'f' => some '\x0c'
  | 'r' => some '\r'
  | 'e' => some '\x1b'
  | ' ' => some ' '
  | '"' => some '"'
  | '/' => some '/'
  | '\\' => some '\\'
  | 'N' => some '\u0085'
  | '_' => some '\u00a0'
  | 'L' => some '\u2028'
  | 'P' => some '\u2029'
  | _ => none

/-- Reads what follows a backslash. -/
def readEscape? (c : Cursor) : Option (Char × Cursor) :=
  match c.rest with
  | 'x' :: _ => readCode? 2 c.skip
  | 'u' :: _ => readCode? 4 c.skip
  | 'U' :: _ => readCode? 8 c.skip
  | x :: _ => (escapedChar? x).map (·, c.skip)
  | [] => none

/-- Reads the part of a quoted scalar up to the next blank, break or quote. A backslash before a
    break joins the lines without a space. -/
def readQuotedWord (quote : Char) : Nat → Folding → Cursor → Option (Folding × Cursor)
  | 0, _, _ => none
  | fuel + 1, f, c =>
    match c.rest with
    | [] => some (f, c)
    | x :: r =>
      if isSpacing x || isBreak x then some (f, c)
      else if quote = '\'' && x = '\'' && r.head? = some '\'' then
        readQuotedWord quote fuel (f.push '\'') (c.advance 2)
      else if x = quote then some (f, c)
      else if quote = '"' && x = '\\' then
        if r.head?.any isBreak then some ({ f with broken := true }, c.skip.skipBreak)
        else do
          let (y, c) ← readEscape? c.skip
          readQuotedWord quote fuel (f.push y) c
      else readQuotedWord quote fuel (f.push x) c.skip

/-- Reads a quoted scalar from behind its first quote. -/
def readQuotedLines (quote : Char) : Nat → Folding → Cursor → Option (Folding × Cursor)
  | 0, _, _ => none
  | fuel + 1, f, c =>
    if c.atDocumentMark || c.rest.isEmpty then none
    else do
      let (f, c) ← readQuotedWord quote (c.rest.length + 1) f c
      if c.at? quote then pure (f, c.skip)
      else do
        let (f, c) ← readGap 0 (c.rest.length + 1) f c
        readQuotedLines quote fuel f.settle c

/-- Reads a quoted scalar from its first quote on. -/
def readQuoted (quote : Char) (c : Cursor) : Option (String × Cursor) := do
  let (f, c) ← readQuotedLines quote (c.rest.length + 1) {} c.skip
  pure (f.text, c)

/-! ### Block scalars -/

/-- What becomes of the breaks at the end of a block scalar. -/
inductive Chomping where
  | strip
  | clip
  | keep

/-- Reads the marks behind the sign of a block scalar: how to chomp, and by how much the text is
    indented. -/
def readBlockHeader (c : Cursor) : Option (Chomping × Nat × Cursor) :=
  let chomping? (c : Cursor) : Option (Chomping × Cursor) :=
    if c.at? '+' then some (.keep, c.skip) else if c.at? '-' then some (.strip, c.skip) else none
  let amount? (c : Cursor) : Option (Nat × Cursor) :=
    match c.rest with
    | x :: _ => if x.isDigit then some (x.toNat - '0'.toNat, c.skip) else none
    | [] => none
  let checked (r : Chomping × Nat × Cursor) (given : Bool) :=
    if given && r.2.1 = 0 then none else some r
  match chomping? c with
  | some (how, c) =>
    match amount? c with
    | some (n, c) => checked (how, n, c) true
    | none => checked (how, 0, c) false
  | none =>
    match amount? c with
    | some (n, c) =>
      match chomping? c with
      | some (how, c) => checked (how, n, c) true
      | none => checked (.clip, n, c) true
    | none => checked (.clip, 0, c) false

/-- Reads the breaks and the indentation before a line of a block scalar. While `indent` is zero all
    spaces are indentation; `widest` is the largest column reached, `breaks` the breaks read so far,
    last first. -/
def readIndentation (indent : Nat) : Nat → Nat → List Char → Cursor →
    Option (Nat × List Char × Cursor)
  | 0, _, _, _ => none
  | fuel + 1, widest, breaks, c =>
    let spaces := (c.rest.takeWhile (· = ' ')).length
    let c := c.advance (if indent = 0 then spaces else min spaces (indent - c.column))
    let widest := max widest c.column
    if (indent = 0 || c.column < indent) && c.at? '\t' then none
    else
      match c.readBreak? with
      | some (b, c) => readIndentation indent fuel widest (b :: breaks) c
      | none => some (widest, breaks, c)

/-- The lines of a block scalar under construction, all characters last first. -/
structure BlockText where
  done : List Char := []
  /-- The break after the last line. -/
  lineEnd : List Char := []
  /-- The breaks after that. -/
  breaks : List Char := []
  /-- The last line began with a blank. -/
  blankLine : Bool := false

/-- The text before a further line, which begins with a blank or not. Between two lines that do not,
    a folded scalar has a space for a single break. -/
def BlockText.join (t : BlockText) (folded blank : Bool) : List Char :=
  if folded && t.lineEnd = ['\n'] && !t.blankLine && !blank then
    t.breaks ++ (if t.breaks = [] then ' ' :: t.done else t.done)
  else t.breaks ++ (t.lineEnd ++ t.done)

/-- The text after the last line. -/
def BlockText.chomp (t : BlockText) : Chomping → List Char
  | .strip => t.done
  | .clip => t.lineEnd ++ t.done
  | .keep => t.breaks ++ (t.lineEnd ++ t.done)

/-- Reads the lines of a block scalar that stand at `indent`. -/
def readBlockLines (folded : Bool) (indent : Nat) : Nat → BlockText → Cursor →
    Option (BlockText × Cursor)
  | 0, _, _ => none
  | fuel + 1, t, c =>
    if c.column ≠ indent || c.rest.isEmpty then some (t, c)
    else do
      let blank := c.rest.head?.any isSpacing
      let line := c.rest.takeWhile (!isBreak ·)
      let done := line.reverse ++ t.join folded blank
      let c := c.advance line.length
      let (lineEnd, c) := match c.readBreak? with
        | some (b, c) => ([b], c)
        | none => ([], c)
      let (_, breaks, c) ← readIndentation indent (c.rest.length + 1) 0 [] c
      readBlockLines folded indent fuel { done, lineEnd, breaks, blankLine := blank } c

/-- Reads a block scalar from its sign on; `outer` is the indentation of what it is part of. -/
def readBlock (folded : Bool) (outer : Int) (c : Cursor) : Option (String × Cursor) := do
  let (how, amount, c) ← readBlockHeader c.skip
  let c := (c.skipWhile isSpacing).skipComment
  if !endsLine c.rest then none
  let c := c.skipBreak
  let given := if amount = 0 then 0 else (max outer 0).toNat + amount
  let (widest, breaks, c) ← readIndentation given (c.rest.length + 1) 0 [] c
  let indent := if given = 0 then max (max widest (outer + 1).toNat) 1 else given
  let (t, c) ← readBlockLines folded indent (c.rest.length + 1) { breaks } c
  pure (String.ofList (t.chomp how).reverse, c)

end Schematic.Yaml
