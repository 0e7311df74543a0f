import Schematic.Document.Load
import Schematic.Generation

/-! The command line: what its arguments ask for, and what a call prints, writes and returns. -/

namespace Schematic.CommandLine

/-- What the arguments ask for. -/
structure Request where
  /-- The file to read; the standard input when absent. -/
  input : Option String := none
  theme : Option Theme := none
  format : ImageFormat := ImageFormat.standard
  native : Bool := false
  grid : Bool := false
  header : Bool := false
  outDir : Option String := none
  /-- The file for the table. -/
  html : Option String := none
  /-- Print DOT texts and make no images. -/
  dot : Bool := false
  deriving DecidableEq

def usage : String :=
  "archix-cli\n" ++
  "\n" ++
  "USAGE:\n" ++
  "archix-cli [render] [--theme dark|light] [--format svg|png|pdf] [--native] [--grid] " ++
  "[--header] [--out-dir <dir>] [--html <path>] [--dot] [<path>|-]\n" ++
  "\n" ++
  "NOTES:\n" ++
  "- If <path> is omitted or '-', a JSON or YAML document is read from stdin.\n" ++
  "- Files ending in .yaml/.yml are read as YAML, anything else as JSON.\n" ++
  "- --dot prints the DOT text of every system instead of calling Graphviz.\n" ++
  "- --html writes the grid table to a file (implies --grid); otherwise the grid is printed.\n" ++
  "- --grid and --html only work with --format svg.\n" ++
  "- Command-line flags override the document's options.\n" ++
  "- Set RUST_LOG (e.g. RUST_LOG=archix=debug) for more output.\n"

/-! ### Arguments -/

/-- An argument that stands alone. -/
def Request.flag? (r : Request) (arg : String) : Option Request :=
  match arg with
  | "render" => some r
  | "--native" => some { r with native := true }
  | "--grid" => some { r with grid := true }
  | "--header" => some { r with header := true }
  | "--dot" => some { r with dot := true }
  | _ => none

/-- The names of arguments that are followed by a value. -/
def isValued (arg : String) : Bool := ["--theme", "--format", "--out-dir", "--html"].contains arg

/-- An argument with its value. -/
def Request.valued? (r : Request) (arg value : String) : Option Request :=
  match arg with
  | "--theme" => (Theme.ofName? value).map fun t => { r with theme := some t }
  | "--format" => (ImageFormat.ofName? value).map fun f => { r with format := f }
  | "--out-dir" => some { r with outDir := some value }
  | "--html" => some { r with html := some value, grid := true }
  | _ => none

/-- The argument names an input: it is a dash or does not begin with one. -/
def isInput (arg : String) : Bool := arg = "-" || arg.toList.head? ≠ some '-'

/-- An argument that names the input, which may only be given once. -/
def Request.input? (r : Request) (arg : String) : Option Request :=
  if isInput arg && r.input.isNone then some { r with input := some arg } else none

/-- Takes arguments from left to right; nothing if they can not be used. -/
def Request.takeAll (r : Request) : List String → Option Request
  | [] => some r
  | [arg] => if isValued arg then none else (r.flag? arg).or (r.input? arg)
  | arg :: next :: rest =>
    if isValued arg then do (← r.valued? arg next).takeAll rest
    else do (← (r.flag? arg).or (r.input? arg)).takeAll (next :: rest)

/-- The images fit into a table if one is wanted. -/
def Request.fits (r : Request) : Bool := !r.grid || r.format = .svg

/-- What the arguments ask for; nothing if they can not be used. -/
def parse (args : List String) : Option Request := do
  let r ← ({} : Request).takeAll args
  if r.fits then pure r else none

/-! ### Calls -/

/-- Why a call fails. -/
inductive CallError where
  | usage
  | stdin (cause : SystemError)
  | write (path : String) (cause : SystemError)
  | document (failure : Failure)
  | variants (count : Nat)

def CallError.message : CallError → String
  | .usage => CommandLine.usage
  | .stdin cause => "I/O error: " ++ cause.message
  | .write path cause => "failed to write " ++ path ++ ": " ++ cause.message
  | .document failure => failure.message
  | .variants count => toString count ++ " variant(s) failed to render"

/-- The number that a failing call returns. -/
def CallError.code : CallError → Nat
  | .usage => 2
  | _ => 1

/-- What a call has printed, and the machine after it. -/
structure Result where
  stdout : String := ""
  error : Option CallError := none
  machine : Machine

def Result.code (r : Result) : Nat := (r.error.map CallError.code).getD 0

def Result.stderr (r : Result) : String := (r.error.map fun e => e.message ++ "\n").getD ""

/-- Reads the document that a request is about. The standard input is read as YAML. -/
def readDocument (m : Machine) (stdin : ByteArray) (input : Option String) :
    Except CallError Document :=
  let fromStdin : Except CallError Document :=
    match String.fromUTF8? stdin with
    | none => .error (.stdin .notUtf8)
    | some text =>
      match Document.parse .yaml text with
      | .ok d => .ok d
      | .error f => .error (.document f)
  match input with
  | none | some "-" => fromStdin
  | some path =>
    match Document.load m path with
    | .ok d => .ok d
    | .error f => .error (.document f)

/-- The document with what the request says about it. -/
def Request.adjust (r : Request) (d : Document) : Document :=
  { d with
    theme := r.theme.or d.theme
    options :=
      { d.options with
        native := d.options.native || r.native
        grid := d.options.grid || r.grid
        header := d.options.header || r.header
        outDir := r.outDir.getD d.options.outDir } }

/-- Texts as lines. -/
def lines (ls : List String) : String := String.join (ls.map (· ++ "\n"))

/-- The DOT texts of a document, each under a line with the name of its system. -/
def dotLines (d : Document) : List String := d.renderDot.flatMap fun (name, dot) => ["// " ++ name, dot]

/-- Prints the table of a report or writes it to a file, whose name it prints then. -/
def deliver (html : Option String) (r : Report) (m : Machine) :
    Except CallError (List String × Machine) :=
  match r.grid, html with
  | none, _ => .ok ([], m)
  | some grid, none => .ok ([grid.text], m)
  | some grid, some path =>
    match m.write path grid.text.toUTF8 with
    | .ok m => .ok ([path], m)
    | .error e => .error (.write path e)

/-- Does what a request asks for. -/
def perform (r : Request) (m : Machine) (stdin : ByteArray) : Result :=
  match readDocument m stdin r.input with
  | .error e => { error := some e, machine := m }
  | .ok d =>
    let d := r.adjust d
    if r.dot then { stdout := lines (dotLines d), machine := m }
    else
      let (report, m) := d.generate (.graphviz Graphviz.standardProgram r.format) m
      match deliver r.html report m with
      | .error e => { error := some e, machine := m }
      | .ok (printed, m) =>
        { stdout := lines (printed ++ report.outputs)
          error := if report.success then none else some (.variants report.errors.length)
          machine := m }

/-- A call with some arguments. -/
def call (args : List String) (m : Machine) (stdin : ByteArray) : Result :=
  match parse args with
  | none => { error := some .usage, machine := m }
  | some r => perform r m stdin

end Schematic.CommandLine
