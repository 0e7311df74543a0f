/-! Shell scripts as data, and how they are read. A script is a list of lines; a line is a pipeline
    that is run after every, after successful or after failing lines. -/

namespace Schematic.Shell

/-- A piece of a word. What is not quoted may fall apart at blanks and holds wildcards. -/
inductive Piece where
  | text (s : String) (quoted : Bool)
  /-- The value of a parameter. -/
  | param (name : String) (quoted : Bool)
  /-- The length of the value of a parameter. -/
  | size (name : String)
  /-- What a script writes. -/
  | output (script : String) (quoted : Bool)
  deriving DecidableEq

abbrev Word := List Piece

/-- How a word after a redirection is used. -/
inductive Direction where
  | read
  | write
  | append
  | copy
  deriving DecidableEq

structure Redirect where
  slot : Nat
  direction : Direction
  target : Word
  deriving DecidableEq

/-- When a line is run, going by the line before it. -/
inductive When where
  | always
  | afterSuccess
  | afterFailure
  deriving DecidableEq

mutual

inductive Command where
  /-- A command that begins on some line of the script. -/
  | simple (line : Nat) (assignments : List (String × Word)) (words : List Word)
      (redirects : List Redirect)
  | branch (clauses : List (List Line × List Line)) (otherwise : List Line)
  | choose (subject : Word) (arms : List (List Word × List Line))
  | loop (whileTrue : Bool) (test body : List Line)
  | each (name : String) (items : List Word) (body : List Line)
  /-- Lines that are run together; `apart` holds if the variables that they set are their own. -/
  | group (apart : Bool) (body : List Line) (redirects : List Redirect)

inductive Line where
  | mk (condition : When) (negated : Bool) (commands : List Command)

end

/-! ### Words -/

inductive Token where
  | word (line : Nat) (w : Word)
  | mark (s : String)
  | redirect (slot : Nat) (direction : Direction)
  | newline

def isBlankChar (c : Char) : Bool := c = ' ' || c = '\t' || c = '\r'

def isNameStart (c : Char) : Bool := c.isAlpha || c = '_'

def isNameChar (c : Char) : Bool := c.isAlphanum || c = '_'

/-- Characters that end a word. -/
def endsWord (c : Char) : Bool :=
  isBlankChar c || [ '\n', ';', '&', '|', '(', ')', '<', '>'].contains c

/-- The text up to the parenthesis that closes one opened before. -/
def closeParen : Nat → Nat → List Char → List Char → Option (List Char × List Char)
  | 0, _, _, _ => none
  | fuel + 1, depth, done, cs =>
    match cs with
    | [] => none
    | ')' :: r =>
      if depth = 0 then some (done.reverse, r) else closeParen fuel (depth - 1) (')' :: done) r
    | '(' :: r => closeParen fuel (depth + 1) ('(' :: done) r
    | '\'' :: r =>
      let inner := r.takeWhile (· ≠ '\'')
      closeParen fuel depth ('\'' :: (inner.reverse ++ '\'' :: done)) (r.drop (inner.length + 1))
    | c :: r => closeParen fuel depth (c :: done) r

/-- Reads what follows a dollar sign. -/
def readDollar (quoted : Bool) (cs : List Char) : Option (Piece × List Char) :=
  match cs with
  | '\x7b' :: '#' :: r =>
    let name := r.takeWhile isNameChar
    match r.drop name.length with
    | '\x7d' :: r => some (.size (String.ofList name), r)
    | _ => none
  | '\x7b' :: r =>
    let name := r.takeWhile (· ≠ '\x7d')
    match r.drop name.length with
    | '\x7d' :: r => some (.param (String.ofList name) quoted, r)
    | _ => none
  | '(' :: r => do
    let (script, r) ← closeParen (r.length + 1) 0 [] r
    pure (.output (String.ofList script) quoted, r)
  | c :: r =>
    if isNameStart c then
      let name := cs.takeWhile isNameChar
      some (.param (String.ofList name) quoted, cs.drop name.length)
    else if c.isDigit || ['@', '*', '#', '?', '$', '!', '-'].contains c then
      some (.param (String.singleton c) quoted, r)
    else some (.text "$" quoted, cs)
  | [] => some (.text "$" quoted, [])

/-- Reads what stands between double quotes. -/
def readQuoted : Nat → Word → List Char → Option (Word × List Char)
  | 0, _, _ => none
  | fuel + 1, done, cs =>
    match cs with
    | [] => none
    | '"' :: r => some (done, r)
    | '\\' :: '\n' :: r => readQuoted fuel done r
    | '\\' :: c :: r =>
      let s := if ['$', '\x60', '"', '\\'].contains c then [c] else ['\\', c]
      readQuoted fuel (.text (String.ofList s) true :: done) r
    | '\x60' :: r =>
      let script := r.takeWhile (· ≠ '\x60')
      readQuoted fuel (.output (String.ofList script) true :: done) (r.drop (script.length + 1))
    | '$' :: r => do
      let (p, r) ← readDollar true r
      readQuoted fuel (p :: done) r
    | c :: r => readQuoted fuel (.text (String.singleton c) true :: done) r

/-- Reads a word; `done` are its pieces so far, last first. -/
def readWord : Nat → Word → List Char → Option (Word × List Char)
  | 0, _, _ => none
  | fuel + 1, done, cs =>
    match cs with
    | [] => some (done.reverse, [])
    | '\'' :: r =>
      let inner := r.takeWhile (· ≠ '\'')
      match r.drop inner.length with
      | [] => none
      | _ :: r => readWord fuel (.text (String.ofList inner) true :: done) r
    | '"' :: r => do
      let (done, r) ← readQuoted fuel (.text "" true :: done) r
      readWord fuel done r
    | '\\' :: '\n' :: r => readWord fuel done r
    | '\\' :: c :: r => readWord fuel (.text (String.singleton c) true :: done) r
    | '\x60' :: r =>
      let script := r.takeWhile (· ≠ '\x60')
      readWord fuel (.output (String.ofList script) false :: done) (r.drop (script.length + 1))
    | '$' :: r => do
      let (p, r) ← readDollar false r
      readWord fuel (p :: done) r
    | c :: r =>
      if endsWord c then some (done.reverse, cs)
      else readWord fuel (.text (String.singleton c) false :: done) r

/-- Reads a redirection sign, with the slot that it is for when none is given. -/
def readRedirect (cs : List Char) : Option (Nat × Direction × List Char) :=
  match cs with
  | '>' :: '>' :: r => some (1, .append, r)
  | '>' :: '&' :: r => some (1, .copy, r)
  | '>' :: '|' :: r => some (1, .write, r)
  | '>' :: r => some (1, .write, r)
  | '<' :: '&' :: r => some (0, .copy, r)
  | '<' :: r => some (0, .read, r)
  | _ => none

/-- Reads a mark between commands. -/
def readMark (cs : List Char) : Option (String × List Char) :=
  match cs with
  | '&' :: '&' :: r => some ("&&", r)
  | '|' :: '|' :: r => some ("||", r)
  | ';' :: ';' :: r => some (";;", r)
  | ';' :: r => some (";", r)
  | '|' :: r => some ("|", r)
  | '(' :: r => some ("(", r)
  | ')' :: r => some (")", r)
  | _ => none

/-- The tokens of a script from the given line on. -/
def tokens : Nat → Nat → List Char → Option (List Token)
  | 0, _, _ => none
  | fuel + 1, line, cs =>
    match cs with
    | [] => some []
    | '\n' :: r => (.newline :: ·) <$> tokens fuel (line + 1) r
    | '\\' :: '\n' :: r => tokens fuel (line + 1) r
    | '#' :: r => tokens fuel line (r.dropWhile (· ≠ '\n'))
    | c :: r =>
      if isBlankChar c then tokens fuel line r
      else
        let digits := cs.takeWhile Char.isDigit
        match readRedirect (cs.drop digits.length) with
        | some (slot, direction, r) =>
          let slot := if digits.isEmpty then slot
            else digits.foldl (fun n d => 10 * n + (d.toNat - '0'.toNat)) 0
          (.redirect slot direction :: ·) <$> tokens fuel line r
        | none =>
          match readMark cs with
          | some (s, r) => (.mark s :: ·) <$> tokens fuel line r
          | none => do
            let (w, r) ← readWord (cs.length + 1) [] cs
            let breaks := (cs.take (cs.length - r.length)).count '\n'
            (.word line w :: ·) <$> tokens fuel (line + breaks) r

/-! ### Commands -/

/-- The text of a word in which nothing is quoted or replaced. -/
def bareText? : Word → Option String
  | [] => some ""
  | .text s false :: w => (bareText? w).map (s ++ ·)
  | _ => none

/-- The token is the given word of the language. -/
def Token.reads (s : String) : Token → Bool
  | .word _ w => bareText? w = some s
  | .mark m => m = s
  | _ => false

/-- Passes over line ends and semicolons. -/
def skipEnds : List Token → List Token
  | .newline :: ts => skipEnds ts
  | .mark ";" :: ts => skipEnds ts
  | ts => ts

/-- Passes over a token that has to come next. -/
def expect (s : String) (ts : List Token) : Option (List Token) :=
  match skipEnds ts with
  | t :: ts => if t.reads s then some ts else none
  | [] => none

/-- An assignment in front of a command. -/
def assignment? (w : Word) : Option (String × Word) :=
  let name := w.takeWhile fun
    | .text s false => s.toList.all isNameChar
    | _ => false
  match bareText? name, w.drop name.length with
  | some n, .text "=" false :: value =>
    if n.toList.head?.any isNameStart then some (n, value) else none
  | _, _ => none

/-- The words that end a list of lines. -/
def closers : List String := ["then", "elif", "else", "fi", "do", "done", "esac", ";;", "\x7d", ")"]

/-- Reads redirections; `done` are those before, last first. -/
def readRedirects : Nat → List Redirect → List Token → Option (List Redirect × List Token)
  | 0, _, _ => none
  | fuel + 1, done, ts =>
    match ts with
    | .redirect slot direction :: .word _ target :: ts =>
      readRedirects fuel (⟨slot, direction, target⟩ :: done) ts
    | ts => some (done.reverse, ts)

/-- Reads the patterns in front of an arm, with bars between them. -/
def readPatterns : Nat → List Word → List Token → Option (List Word × List Token)
  | 0, _, _ => none
  | fuel + 1, done, ts =>
    match ts with
    | .word _ w :: .mark "|" :: ts => readPatterns fuel (w :: done) ts
    | .word _ w :: .mark ")" :: ts => some ((w :: done).reverse, ts)
    | _ => none

/-- Reads words as far as they go. -/
def readItems : List Word → List Token → List Word × List Token
  | done, .word _ w :: ts => readItems (w :: done) ts
  | done, ts => (done.reverse, ts)

mutual

/-- Reads lines up to a word that ends them. -/
def readLines : Nat → When → List Token → Option (List Line × List Token)
  | 0, _, _ => none
  | fuel + 1, condition, ts =>
    match skipEnds ts with
    | [] => some ([], [])
    | t :: ts =>
      if closers.any t.reads then some ([], t :: ts)
      else do
        let (negated, ts) := if t.reads "!" then (true, ts) else (false, t :: ts)
        let (commands, ts) ← readPipeline fuel ts
        let line := Line.mk condition negated commands
        match ts with
        | .mark "&&" :: ts => do
          let (ls, ts) ← readLines fuel .afterSuccess (skipEnds ts)
          pure (line :: ls, ts)
        | .mark "||" :: ts => do
          let (ls, ts) ← readLines fuel .afterFailure (skipEnds ts)
          pure (line :: ls, ts)
        | ts => do
          let (ls, ts) ← readLines fuel .always ts
          pure (line :: ls, ts)

/-- Reads commands with bars between them. -/
def readPipeline : Nat → List Token → Option (List Command × List Token)
  | 0, _ => none
  | fuel + 1, ts => do
    let (c, ts) ← readCommand fuel ts
    match ts with
    | .mark "|" :: ts => do
      let (cs, ts) ← readPipeline fuel (skipEnds ts)
      pure (c :: cs, ts)
    | ts => pure ([c], ts)

/-- Reads a command. -/
def readCommand : Nat → List Token → Option (Command × List Token)
  | 0, _ => none
  | fuel + 1, ts =>
    match ts with
    | [] => none
    | t :: rest =>
      if t.reads "if" then readBranch fuel [] rest
      else if t.reads "while" || t.reads "until" then do
        let (test, ts) ← readLines fuel .always rest
        let ts ← expect "do" ts
        let (body, ts) ← readLines fuel .always ts
        let ts ← expect "done" ts
        pure (.loop (t.reads "while") test body, ts)
      else if t.reads "for" then
        match rest with
        | .word _ w :: ts => do
          let name ← bareText? w
          let ts ← expect "in" ts
          let (items, ts) := readItems [] ts
          let ts ← expect "do" ts
          let (body, ts) ← readLines fuel .always ts
          let ts ← expect "done" ts
          pure (.each name items body, ts)
        | _ => none
      else if t.reads "case" then
        match rest with
        | .word _ subject :: ts => do
          let ts ← expect "in" ts
          let (arms, ts) ← readArms fuel [] ts
          pure (.choose subject arms, ts)
        | _ => none
      else if t.reads "\x7b" || t.reads "(" then do
        let (body, ts) ← readLines fuel .always rest
        let ts ← expect (if t.reads "(" then ")" else "\x7d") ts
        let (redirects, ts) ← readRedirects fuel [] ts
        pure (.group (t.reads "(") body redirects, ts)
      else
        let line := match t with
          | .word line _ => line
          | _ => 0
        readSimple line fuel [] [] [] ts

/-- Reads the words of a simple command; all lists are kept last first. -/
def readSimple (line : Nat) : Nat → List (String × Word) → List Word → List Redirect → List Token →
    Option (Command × List Token)
  | 0, _, _, _, _ => none
  | fuel + 1, assignments, words, redirects, ts =>
    match ts with
    | .redirect slot direction :: .word _ target :: ts =>
      readSimple line fuel assignments words (⟨slot, direction, target⟩ :: redirects) ts
    | .word _ w :: ts =>
      match words, assignment? w with
      | [], some a => readSimple line fuel (a :: assignments) [] redirects ts
      | _, _ => readSimple line fuel assignments (w :: words) redirects ts
    | .redirect _ _ :: _ => none
    | ts =>
      if assignments.isEmpty && words.isEmpty && redirects.isEmpty then none
      else some (.simple line assignments.reverse words.reverse redirects.reverse, ts)

/-- Reads the clauses of `if`. -/
def readBranch : Nat → List (List Line × List Line) → List Token → Option (Command × List Token)
  | 0, _, _ => none
  | fuel + 1, done, ts => do
    let (test, ts) ← readLines fuel .always ts
    let ts ← expect "then" ts
    let (body, ts) ← readLines fuel .always ts
    match skipEnds ts with
    | t :: ts =>
      if t.reads "elif" then readBranch fuel ((test, body) :: done) ts
      else if t.reads "else" then do
        let (otherwise, ts) ← readLines fuel .always ts
        let ts ← expect "fi" ts
        pure (.branch ((test, body) :: done).reverse otherwise, ts)
      else if t.reads "fi" then pure (.branch ((test, body) :: done).reverse [], ts)
      else none
    | [] => none

/-- Reads the arms of `case`. -/
def readArms : Nat → List (List Word × List Line) → List Token →
    Option (List (List Word × List Line) × List Token)
  | 0, _, _ => none
  | fuel + 1, done, ts =>
    match skipEnds ts with
    | [] => none
    | t :: ts =>
      if t.reads "esac" then some (done.reverse, ts)
      else do
        let ts := if t.reads "(" then ts else t :: ts
        let (patterns, ts) ← readPatterns fuel [] ts
        let (body, ts) ← readLines fuel .always ts
        match skipEnds ts with
        | .mark ";;" :: ts => readArms fuel ((patterns, body) :: done) ts
        | ts => readArms fuel ((patterns, body) :: done) ts

end

/-- The lines of a script, or nothing if it is not one. -/
def readScript (source : String) : Option (List Line) := do
  let ts ← tokens (source.length + 1) 1 source.toList
  let (ls, rest) ← readLines (8 * ts.length + 8) .always ts
  if rest.isEmpty then pure ls else none

end Schematic.Shell
