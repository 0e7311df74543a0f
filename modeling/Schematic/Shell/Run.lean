import Schematic.Shell.Pattern
import Schematic.Shell.Script
import Schematic.Shell.Tool
import Schematic.Status

/-! Running scripts. Whatever flows between programs flows through numbered streams: 0 is the input
    of the whole, 1 its output and 2 its errors; pipes and files that are read get streams of their
    own. The parts of a pipeline are run one after the other. -/

namespace Schematic.Shell

/-- Where a slot leads. -/
inductive Channel where
  | stream (number : Nat)
  | file (l : Location)
  | nowhere

structure Slots where
  input : Channel := .stream 0
  output : Channel := .stream 1
  errors : Channel := .stream 2

structure State where
  files : FileTree
  home : Location
  /-- Where programs are looked for. -/
  search : List String
  /-- What the script is called. -/
  name : String := "sh"
  arguments : List String := []
  /-- The variables with their values. -/
  bindings : List (String × String) := []
  streams : Array ByteArray
  status : Nat := 0
  /-- The line of the script that is run. -/
  line : Nat := 1
  /-- A failing line ends the script. -/
  strict : Bool := false
  /-- Set once the script has ended. -/
  ending : Option Status := none

namespace State

def withStatus (s : State) (n : Nat) : State := { s with status := n }

/-- The state in which another script begins. -/
def fresh (s : State) : State :=
  { s with status := 0, line := 1, strict := false, ending := none }

/-- Adds a stream that holds some bytes. -/
def newStream (s : State) (b : ByteArray) : Nat × State :=
  (s.streams.size, { s with streams := s.streams.push b })

/-- Writes bytes to where a slot leads. -/
def write (s : State) (b : ByteArray) : Channel → State
  | .stream n => { s with streams := s.streams.modify n (· ++ b) }
  | .file l =>
    match s.files.find? l with
    | some (.file old executable) => { s with files := s.files.set l (.file (old ++ b) executable) }
    | _ => s
  | .nowhere => s

/-- The bytes that can be read from where a slot leads. -/
def readable (s : State) : Channel → ByteArray
  | .stream n => s.streams[n]?.getD .empty
  | _ => .empty

/-- Takes bytes away from where a slot leads. -/
def take (s : State) (n : Nat) : Channel → State
  | .stream k => { s with streams := s.streams.modify k fun b => b.extract n b.size }
  | _ => s

def valueOf? (s : State) (name : String) : Option String := s.bindings.lookup name

def assign (s : State) (name value : String) : State :=
  { s with bindings := (name, value) :: s.bindings.filter (·.1 ≠ name) }

/-- Gives some variables back the values that they had before. -/
def withdraw (s before : State) (names : List String) : State :=
  let named (v : String × String) : Bool := names.contains v.1
  { s with bindings := before.bindings.filter named ++ s.bindings.filter (!named ·) }

/-- Gives the words of a line to variables, the last of which takes all that is left. With `whole`
    the line is not taken apart. -/
def assignFields (s : State) (whole : Bool) (names : List String) (line : String) : State :=
  let trimmed (cs : List Char) : List Char :=
    if whole then cs
    else Text.dropEndWhile (fun c => c = ' ' || c = '\t') (cs.dropWhile fun c => c = ' ' || c = '\t')
  match names with
  | [] => s
  | [name] => s.assign name (String.ofList (trimmed line.toList))
  | name :: names =>
    let cs := trimmed line.toList
    let word := if whole then cs else cs.takeWhile fun c => c ≠ ' ' && c ≠ '\t'
    assignFields (s.assign name (String.ofList word)) whole names
      (String.ofList (cs.drop word.length))

/-- The number by which a script knows itself. -/
def self : String := "4000"

/-- The value of a parameter. -/
def parameter? (s : State) (name : String) : Option String :=
  match name with
  | "#" => some (toString s.arguments.length)
  | "?" => some (toString s.status)
  | "$" => some self
  | "@" | "*" => some (" ".intercalate s.arguments)
  | "0" => some s.name
  | "PATH" => some (":".intercalate s.search)
  | _ =>
    match name.toNat? with
    | some n => s.arguments[n - 1]?
    | none => s.valueOf? name

/-- Says something in the way of the shell. -/
def complain (s : State) (slots : Slots) (text : String) : State :=
  s.write (s.name ++ ": " ++ toString s.line ++ ": " ++ text ++ "\n").toUTF8 slots.errors

end State

/-! ### Words -/

/-- What a word turns into: characters, places where it falls apart, and marks of something quoted,
    which may be empty. -/
inductive Bit where
  | char (c : Char) (quoted : Bool)
  | gap (c : Char)
  | mark

def bitsOf (quoted : Bool) (s : String) : List Bit := s.toList.map (.char · quoted)

/-- Values fall apart at these characters. -/
def isGap (c : Char) : Bool := c = ' ' || c = '\t' || c = '\n'

/-- The characters of a value, which falls apart at blanks unless it is quoted. -/
def bitsOfValue (quoted : Bool) (s : String) : List Bit :=
  if quoted then .mark :: bitsOf true s
  else s.toList.map fun c => if isGap c then .gap c else .char c false

/-- The fields between gaps; what is empty and not marked is none. -/
def fieldsOf (bits : List Bit) : List (List PatternChar) :=
  let add (b : Bit) (acc : List (List PatternChar × Bool)) : List (List PatternChar × Bool) :=
    match b, acc with
    | .char c q, (f, _) :: rest => ((c, q) :: f, true) :: rest
    | .mark, (f, _) :: rest => (f, true) :: rest
    | .gap _, acc => ([], false) :: acc
    | .char c q, [] => [([(c, q)], true)]
    | .mark, [] => [([], true)]
  ((bits.foldr add [([], false)]).filter (·.2)).map (·.1)

def fieldText (f : List PatternChar) : String := String.ofList (f.map (·.1))

/-- Splits the name of a parameter from what is to be done with its value. -/
def splitParameter (s : String) : String × List Char :=
  let cs := s.toList
  let name := match cs with
    | c :: _ => if isNameStart c then cs.takeWhile isNameChar
      else if c.isDigit then cs.takeWhile Char.isDigit
      else [c]
    | [] => []
  (String.ofList name, cs.drop name.length)

/-- The value of a parameter after what is done with it. -/
def parameterValue (s : State) (spelling : String) : String :=
  let (name, rest) := splitParameter spelling
  let value := s.parameter? name
  let pattern (cs : List Char) : List PatternChar := cs.map (·, false)
  match rest with
  | ':' :: '-' :: other => if (value.getD "").isEmpty then String.ofList other else value.getD ""
  | '-' :: other => value.getD (String.ofList other)
  | ':' :: '+' :: other => if (value.getD "").isEmpty then "" else String.ofList other
  | '#' :: '#' :: p => dropStart true (pattern p) (value.getD "")
  | '#' :: p => dropStart false (pattern p) (value.getD "")
  | '%' :: '%' :: p => dropEnd true (pattern p) (value.getD "")
  | '%' :: p => dropEnd false (pattern p) (value.getD "")
  | _ => value.getD ""

/-- All arguments, each of them a field of its own. -/
def argumentBits (arguments : List String) : List Bit :=
  (List.intersperse [Bit.gap ' '] (arguments.map fun a => Bit.mark :: bitsOf true a)).flatten

/-- Drops the line ends at the end of what a script has written. -/
def chompLines (s : String) : String := String.ofList (Text.dropEndWhile (· = '\n') s.toList)

/-! ### Conditions -/

/-- A condition on one text. -/
def unaryCondition (s : State) (op a : String) : Bool :=
  match op with
  | "-n" => !a.isEmpty
  | "-z" => a.isEmpty
  | "-e" => (s.files.locate s.home a).isOk
  | "-d" => s.files.isDirectory s.home a
  | "-f" =>
    match s.files.locate s.home a with
    | .ok (_, .file _ _) => true
    | _ => false
  | "-s" =>
    match s.files.read s.home a with
    | .ok b => b.size > 0
    | .error _ => false
  | "-x" =>
    match s.files.locate s.home a with
    | .ok (_, .file _ executable) => executable
    | .ok (_, .sink) => false
    | .ok _ => true
    | .error _ => false
  | _ => false

/-- A condition on two texts. -/
def binaryCondition (a op b : String) : Bool :=
  match op with
  | "=" | "==" => a = b
  | "!=" => a ≠ b
  | "-eq" => numberOf a = numberOf b
  | "-ne" => numberOf a ≠ numberOf b
  | "-lt" => numberOf a < numberOf b
  | "-le" => numberOf a ≤ numberOf b
  | "-gt" => numberOf a > numberOf b
  | "-ge" => numberOf a ≥ numberOf b
  | _ => false

/-- Whether a condition holds. -/
def condition (s : State) : List String → Bool
  | "!" :: r => !condition s r
  | [a] => !a.isEmpty
  | [op, a] => unaryCondition s op a
  | [a, op, b] => binaryCondition a op b
  | a :: op :: b :: "-a" :: r => binaryCondition a op b && condition s r
  | a :: op :: b :: "-o" :: r => binaryCondition a op b || condition s r
  | _ => false

/-! ### Programs -/

/-- Finds the file for a program, by its path or in the places where programs are looked for. -/
def findProgram (s : State) (program : String) : Except SystemError (String × Entry) :=
  let look (path : String) : Except SystemError (String × Entry) :=
    match s.files.locate s.home path with
    | .ok (_, .tool t) => .ok (path, .tool t)
    | .ok (_, .file b true) => .ok (path, .file b true)
    | .ok _ => .error .permissionDenied
    | .error e => .error e
  if program.toList.contains '/' then look program
  else if program.isEmpty then .error .notFound
  else if program.utf8ByteSize > FileTree.maxName then .error .nameTooLong
  else
    let go (sofar : Except SystemError (String × Entry)) (dir : String) :
        Except SystemError (String × Entry) :=
      match sofar with
      | .ok found => .ok found
      | .error before =>
        match look (Path.join (if dir.isEmpty then "." else dir) program) with
        | .ok found => .ok found
        | .error .permissionDenied => .error .permissionDenied
        | .error _ => .error before
    s.search.foldl go (.error .notFound)

/-- The program that the first line of a script names, and the argument given there. -/
def interpreter? (b : ByteArray) : Option (String × List String) :=
  match b.toList with
  | 35 :: 33 :: r =>
    let line := (Text.lossy ⟨(r.takeWhile (· ≠ 10)).toArray⟩).toList
    let blank (c : Char) : Bool := c = ' ' || c = '\t'
    let line := Text.dropEndWhile blank (line.dropWhile blank)
    let path := line.takeWhile (!blank ·)
    let rest := (line.drop path.length).dropWhile blank
    if path.isEmpty then none
    else some (String.ofList path, if rest.isEmpty then [] else [String.ofList rest])
  | _ => none

/-- The tool that runs a program in the end, with its arguments. -/
def resolveProgram (s : State) : Nat → String → List String → Except SystemError (Tool × List String)
  | 0, _, _ => .error .notExecutable
  | fuel + 1, program, arguments => do
    match ← findProgram s program with
    | (_, .tool t) => pure (t, arguments)
    | (path, .file b _) =>
      match interpreter? b with
      | none => throw .notExecutable
      | some (program, first) =>
        if program.toList.contains '/' then resolveProgram s fuel program (first ++ path :: arguments)
        else throw .notFound
    | _ => throw .permissionDenied

/-- How the exit code shows that a program can not be run. -/
def failureCode : SystemError → Nat
  | .notFound | .notDirectory => 127
  | _ => 126

/-! ### Commands that the shell knows by itself -/

/-- Runs a command that changes nothing but the status and what is written. -/
def plainBuiltin? (s : State) (slots : Slots) (name : String) (arguments : List String) :
    Option State :=
  match name with
  | ":" | "true" | "export" | "unset" | "umask" | "wait" | "trap" => some (s.withStatus 0)
  | "set" =>
    let flags := (arguments.takeWhile fun a => a.toList.head? = some '-').flatMap String.toList
    some { s with status := 0, strict := s.strict || flags.contains 'e' }
  | "false" => some (s.withStatus 1)
  | "echo" => some ((s.write (echo arguments) slots.output).withStatus 0)
  | "printf" =>
    match arguments with
    | format :: rest =>
      some ((s.write (printf format (rest.length + 1) rest) slots.output).withStatus 0)
    | [] => some (s.withStatus 2)
  | "test" => some (s.withStatus (if condition s arguments then 0 else 1))
  | "[" => some (s.withStatus (if condition s arguments.dropLast then 0 else 1))
  | "shift" => some { s with arguments := s.arguments.tail, status := 0 }
  | "exit" | "return" =>
    let leave (s : State) (code : Nat) : State :=
      { s with status := code, ending := some (.exited code) }
    match arguments with
    | n :: _ =>
      if n.toList.all Char.isDigit && !n.isEmpty then some (leave s (numberOf n % 256).toNat)
      else some (leave (s.complain slots (name ++ ": Illegal number: " ++ n)) 2)
    | [] => some (leave s s.status)
  | "kill" =>
    let (signal, targets) := match arguments with
      | "-s" :: name :: r => (Status.signal? name, r)
      | a :: r =>
        match a.toList with
        | '-' :: name => (Status.signal? (String.ofList name), r)
        | _ => (some 15, a :: r)
      | [] => (none, [])
    match signal with
    | some n =>
      if targets.contains State.self && n ≠ 0 then some { s with ending := some (.killed n) }
      else some (s.withStatus (if targets.isEmpty then 2 else 1))
    | none => some (s.withStatus 2)
  | "cd" =>
    match arguments with
    | path :: _ =>
      match s.files.locate s.home path with
      | .ok (l, .directory) => some { s with home := l, status := 0 }
      | _ => some ((s.complain slots ("cd: can't cd to " ++ path)).withStatus 2)
    | [] => some (s.withStatus 0)
  | "read" =>
    let b := s.readable slots.input
    let n := lengthOfLines 1 b.toList
    let line := chompLines (Text.lossy (b.extract 0 n))
    let names := arguments.filter fun a => a.toList.head? ≠ some '-'
    let whole := s.valueOf? "IFS" = some ""
    let s := (s.take n slots.input).assignFields whole names line
    some (s.withStatus (if n = 0 then 1 else 0))
  | _ => none

/-! ### Running -/

/-- Opens the file for a redirection. -/
def openFile (s : State) (slots : Slots) (direction : Direction) (path : String) :
    State × Option Channel :=
  match direction with
  | .read =>
    match s.files.read s.home path with
    | .ok b =>
      let (n, s) := s.newStream b
      (s, some (.stream n))
    | .error _ => (s.complain slots ("cannot open " ++ path ++ ": No such file"), none)
  | _ =>
    match s.files.update s.home path fun b => if direction = .append then b else .empty with
    | .ok files =>
      match files.locate s.home path with
      | .ok (l, .file _ _) => ({ s with files }, some (.file l))
      | _ => ({ s with files }, some .nowhere)
    | .error _ => (s.complain slots ("cannot create " ++ path ++ ": Directory nonexistent"), none)

/-- Lets a slot lead elsewhere. -/
def Slots.redirect (p : Slots) (slot : Nat) (c : Channel) : Slots :=
  match slot with
  | 0 => { p with input := c }
  | 1 => { p with output := c }
  | 2 => { p with errors := c }
  | _ => p

/-- Where a slot leads, by its number. -/
def Slots.channel? (p : Slots) : String → Option Channel
  | "0" => some p.input
  | "1" => some p.output
  | "2" => some p.errors
  | "-" => some .nowhere
  | _ => none

/-- What a part of a pipeline leaves behind: everything but its variables, its place and its end,
    unless it was killed. -/
def leaveSubshell (before after : State) : State :=
  { after with
    home := before.home
    arguments := before.arguments
    bindings := before.bindings
    ending := match after.ending with
      | some (.killed n) => some (.killed n)
      | _ => before.ending }

mutual

/-- The fields that a word turns into. -/
def expand : Nat → Slots → Word → State → List Bit × State
  | 0, _, _, s => ([], s)
  | _ + 1, _, [], s => ([], s)
  | fuel + 1, slots, p :: w, s =>
    let (bits, s) := match p with
      | .text t quoted => ((if quoted then Bit.mark :: bitsOf true t else bitsOf false t), s)
      | .param "@" true => (argumentBits s.arguments, s)
      | .param name quoted => (bitsOfValue quoted (parameterValue s name), s)
      | .size name => (bitsOfValue false (toString (parameterValue s name).length), s)
      | .output script quoted =>
        let (n, s') := s.newStream .empty
        let s' := leaveSubshell s (runSource fuel { slots with output := .stream n } script s')
        (bitsOfValue quoted (chompLines (Text.lossy (s'.readable (.stream n)))), s')
    let (rest, s) := expand fuel slots w s
    (bits ++ rest, s)

/-- The fields that words turn into. -/
def expandAll : Nat → Slots → List Word → State → List String × State
  | 0, _, _, s => ([], s)
  | _ + 1, _, [], s => ([], s)
  | fuel + 1, slots, w :: ws, s =>
    let (bits, s) := expand fuel slots w s
    let (rest, s) := expandAll fuel slots ws s
    ((fieldsOf bits).map fieldText ++ rest, s)

/-- The one text that a word turns into where it does not fall apart. -/
def expandText : Nat → Slots → Word → State → List PatternChar × State
  | 0, _, _, s => ([], s)
  | fuel + 1, slots, w, s =>
    let (bits, s) := expand fuel slots w s
    (bits.filterMap fun
      | .char c q => some (c, q)
      | .gap c => some (c, true)
      | .mark => none, s)

/-- Lets slots lead elsewhere; nothing if that can not be done. -/
def redirectAll : Nat → Slots → List Redirect → State → State × Option Slots
  | 0, _, _, s => (s, none)
  | _ + 1, slots, [], s => (s, some slots)
  | fuel + 1, slots, r :: rs, s =>
    let (target, s) := expandText fuel slots r.target s
    match r.direction with
    | .copy =>
      match slots.channel? (fieldText target) with
      | some c => redirectAll fuel (slots.redirect r.slot c) rs s
      | none => (s.complain slots "bad redirection", none)
    | d =>
      match openFile s slots d (fieldText target) with
      | (s, some c) => redirectAll fuel (slots.redirect r.slot c) rs s
      | (s, none) => (s, none)

/-- Sets variables. -/
def assignAll : Nat → Slots → List (String × Word) → State → State
  | 0, _, _, s => s
  | _ + 1, _, [], s => s
  | fuel + 1, slots, (name, w) :: rest, s =>
    let (value, s) := expandText fuel slots w s
    assignAll fuel slots rest (s.assign name (fieldText value))

/-- Runs the text of a script. -/
def runSource : Nat → Slots → String → State → State
  | 0, _, _, s => s
  | fuel + 1, slots, source, s =>
    match readScript source with
    | some ls => runLines fuel slots ls s
    | none =>
      let s := s.complain slots "Syntax error"
      { s with status := 2, ending := some (.exited 2) }

def runLines : Nat → Slots → List Line → State → State
  | 0, _, _, s => s
  | _ + 1, _, [], s => s
  | fuel + 1, slots, .mk condition negated commands :: ls, s =>
    if s.ending.isSome then s
    else
      let due := match condition with
        | .always => true
        | .afterSuccess => s.status = 0
        | .afterFailure => s.status ≠ 0
      let s := if due then
          let s' := runPipeline fuel slots commands { s with strict := s.strict && !negated }
          let s' := { s' with strict := s'.strict || s.strict }
          if negated then s'.withStatus (if s'.status = 0 then 1 else 0) else s'
        else s
      let goesOn := match ls with
        | .mk .always _ _ :: _ | [] => false
        | _ => true
      let s := if due && s.strict && s.status ≠ 0 && !negated && !goesOn && s.ending.isNone then
          { s with ending := some (.exited s.status) }
        else s
      runLines fuel slots ls s

/-- Runs lines that only show whether something holds. -/
def runTest : Nat → Slots → List Line → State → State
  | 0, _, _, s => s
  | fuel + 1, slots, ls, s =>
    { runLines fuel slots ls { s with strict := false } with strict := s.strict }

def runPipeline : Nat → Slots → List Command → State → State
  | 0, _, _, s => s
  | _ + 1, _, [], s => s
  | fuel + 1, slots, [c], s => runCommand fuel slots c s
  | fuel + 1, slots, c :: cs, s =>
    let (n, s) := s.newStream .empty
    let after := runCommand fuel { slots with output := .stream n } c s
    let s := leaveSubshell s after
    if s.ending.isSome then s
    else leaveSubshell s (runPipeline fuel { slots with input := .stream n } cs s)

def runCommand : Nat → Slots → Command → State → State
  | 0, _, _, s => s
  | fuel + 1, slots, .simple line assignments words redirects, s =>
    let s := { s with line }
    let (fields, s) := expandAll fuel slots words s
    match redirectAll fuel slots redirects s with
    | (s, none) => s.withStatus 2
    | (s, some slots) =>
      match fields with
      | [] => (assignAll fuel slots assignments s).withStatus 0
      | ["exec"] => s.withStatus 0
      | "exec" :: name :: arguments =>
        let s := runProgram fuel slots name arguments s
        { s with ending := s.ending.or (some (.exited s.status)) }
      | name :: arguments =>
        let before := s
        let s := assignAll fuel slots assignments s
        match plainBuiltin? s slots name arguments with
        | some s => s.withdraw before (assignments.map (·.1))
        | none => (runProgram fuel slots name arguments s).withdraw before (assignments.map (·.1))
  | fuel + 1, slots, .branch clauses otherwise, s => runBranch fuel slots clauses otherwise s
  | fuel + 1, slots, .choose subject arms, s =>
    let (subject, s) := expandText fuel slots subject s
    runArms fuel slots (fieldText subject) arms (s.withStatus 0)
  | fuel + 1, slots, .loop whileTrue test body, s =>
    let s := runTest fuel slots test s
    if s.ending.isSome then s
    else if (s.status = 0) != whileTrue then s.withStatus 0
    else runCommand fuel slots (.loop whileTrue test body) (runLines fuel slots body s)
  | fuel + 1, slots, .each name items body, s =>
    let (values, s) := expandAll fuel slots items s
    runEach fuel slots name values body (s.withStatus 0)
  | fuel + 1, slots, .group apart body redirects, s =>
    match redirectAll fuel slots redirects s with
    | (s, none) => s.withStatus 2
    | (s, some slots) =>
      let after := runLines fuel slots body s
      if apart then leaveSubshell s after else after

def runBranch : Nat → Slots → List (List Line × List Line) → List Line → State → State
  | 0, _, _, _, s => s
  | fuel + 1, slots, [], otherwise, s =>
    if otherwise.isEmpty then s.withStatus 0 else runLines fuel slots otherwise s
  | fuel + 1, slots, (test, body) :: rest, otherwise, s =>
    let s := runTest fuel slots test s
    if s.ending.isSome then s
    else if s.status = 0 then runLines fuel slots body s
    else runBranch fuel slots rest otherwise s

def runArms : Nat → Slots → String → List (List Word × List Line) → State → State
  | 0, _, _, _, s => s
  | _ + 1, _, _, [], s => s
  | fuel + 1, slots, subject, (patterns, body) :: rest, s =>
    let (found, s) := anyFits fuel slots subject patterns s
    if found then runLines fuel slots body s else runArms fuel slots subject rest s

def anyFits : Nat → Slots → String → List Word → State → Bool × State
  | 0, _, _, _, s => (false, s)
  | _ + 1, _, _, [], s => (false, s)
  | fuel + 1, slots, subject, w :: ws, s =>
    let (pattern, s) := expandText fuel slots w s
    if fitsAll pattern subject then (true, s) else anyFits fuel slots subject ws s

def runEach : Nat → Slots → String → List String → List Line → State → State
  | 0, _, _, _, _, s => s
  | _ + 1, _, _, [], _, s => s
  | fuel + 1, slots, name, v :: vs, body, s =>
    if s.ending.isSome then s
    else runEach fuel slots name vs body (runLines fuel slots body (s.assign name v))

/-- Runs a program from within a script. -/
def runProgram : Nat → Slots → String → List String → State → State
  | 0, _, _, _, s => s
  | fuel + 1, slots, program, arguments, s =>
    match resolveProgram s 5 program arguments with
    | .ok (tool, arguments) =>
      let after := runTool fuel slots tool arguments s
      let code := match after.ending with
        | some (.exited n) => n
        | some (.killed n) => 128 + n
        | none => after.status
      { after with
        home := s.home
        name := s.name
        arguments := s.arguments
        bindings := s.bindings
        line := s.line
        strict := s.strict
        status := code
        ending := s.ending }
    | .error e =>
      let text := if e = .permissionDenied then "Permission denied" else "not found"
      (s.complain slots (program ++ ": " ++ text)).withStatus (failureCode e)

/-- Runs a tool; the shell and its like run scripts. -/
def runTool : Nat → Slots → Tool → List String → State → State
  | 0, _, _, _, s => s
  | fuel + 1, slots, .env, arguments, s =>
    match arguments with
    | program :: rest => runProgram fuel slots program rest s
    | [] => s.withStatus 0
  | fuel + 1, slots, .shell, arguments, s =>
    let (options, rest) := arguments.span fun a => a.toList.head? = some '-' && a ≠ "-"
    let asCommand := options.any fun o => o.toList.contains 'c'
    match asCommand, rest with
    | true, source :: rest =>
      runSource fuel slots source
        { s.fresh with name := rest.head?.getD "sh", arguments := rest.tail }
    | true, [] => s.withStatus 2
    | false, path :: rest =>
      match s.files.read s.home path with
      | .ok b =>
        runSource fuel slots (Text.lossy b)
          { s.fresh with name := path, arguments := rest }
      | .error _ => (s.complain slots ("cannot open " ++ path ++ ": No such file")).withStatus 2
    | false, [] =>
      let b := s.readable slots.input
      runSource fuel slots (Text.lossy b) (s.fresh.take b.size slots.input)
  | _ + 1, slots, tool, arguments, s =>
    let task : Task :=
      { arguments, input := s.readable slots.input, files := s.files, home := s.home }
    let d := task.perform tool
    let s := ({ s with files := d.files }.take d.taken slots.input)
    ((s.write d.output slots.output).write d.errors slots.errors).withStatus d.code

end

/-! ### From outside -/

/-- What came of a program that was started. -/
structure Outcome where
  /-- How many bytes of its input it read. -/
  taken : Nat
  status : Status
  stdout : ByteArray
  stderr : ByteArray

/-- How far a script may go. -/
def patience : Nat := 100000

/-- Runs a program to its end and gives the files after it; an error if it can not be started. -/
def execute (files : FileTree) (home : Location) (search : List String) (program : String)
    (arguments : List String) (input : ByteArray) : Except SystemError (Outcome × FileTree) := do
  let s : State := { files, home, search, streams := #[input, .empty, .empty] }
  if (program :: arguments).any (·.toList.contains '\x00') then throw .nulInArgument
  let (tool, arguments) ← resolveProgram s 5 program arguments
  let s := runTool patience {} tool arguments s
  let status := s.ending.getD (.exited s.status)
  pure (
    { taken := input.size - (s.readable (.stream 0)).size
      status
      stdout := s.readable (.stream 1)
      stderr := s.readable (.stream 2) },
    s.files)

end Schematic.Shell
