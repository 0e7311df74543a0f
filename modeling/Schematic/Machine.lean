import Schematic.Shell.Run

/-! The machine that diagrams are made on: its files, the place where work goes on, and the places
    where programs are looked for. -/

namespace Schematic

/-- How it goes where programs take their time: an input goes through if it is read to its end, or if the
    pipe holds all of it. -/
def roomyPipe (size taken : Nat) : Except SystemError Unit :=
  if taken = size ∨ size ≤ 65536 then .ok () else .error .brokenPipe

structure Machine where
  files : FileTree
  /-- Where relative paths begin. -/
  home : Location
  /-- The directories that are searched for programs. -/
  search : List String
  /-- What becomes of writing an input of so many bytes to a program that reads so many of them. What is
      not read goes through only if it is in the pipe before the program ends or closes its input, and
      neither the program nor the one who writes has a say in that. -/
  pipe : (size taken : Nat) → Except SystemError Unit := roomyPipe

/-- What came of a program that was started and given an input. -/
structure Fed where
  /-- Whether all of the input could be written. -/
  written : Except SystemError Unit
  /-- How the program ended, if it could be waited for. -/
  ended : Except SystemError Shell.Outcome

/-- The names under which tools can be called. -/
def Tool.names : List (String × Tool) :=
  [("sh", .shell), ("bash", .shell), ("dash", .shell), ("env", .env), ("cat", .cat), ("wc", .wc),
   ("tr", .tr), ("head", .head), ("tee", .tee), ("touch", .touch), ("mkdir", .mkdir), ("rm", .rm),
   ("sleep", .sleep), ("echo", .echo), ("printf", .printf), ("true", .yes), ("false", .no)]

/-- A tree with nothing but the tools and the sink, in their usual places. -/
def FileTree.system : FileTree :=
  let bins : List Location := [["bin"], ["usr", "bin"]]
  let tools := bins.flatMap fun bin => Tool.names.map fun (name, t) => (bin ++ [name], Entry.tool t)
  let all := tools ++ [(["dev", "null"], Entry.sink), (["tmp"], Entry.directory)]
  all.foldl (fun (t : FileTree) e => t.plant e.1 e.2) {}

/-- Where tools are looked for, if nowhere else. -/
def standardSearch : List String := ["/usr/bin", "/bin"]

namespace Machine

/-- The text in a file. -/
def readText (m : Machine) (path : String) : Except SystemError String := do
  let bytes ← m.files.read m.home path
  match String.fromUTF8? bytes with
  | some s => pure s
  | none => throw .notUtf8

/-- Writes a file into a directory that is there. -/
def write (m : Machine) (path : String) (bytes : ByteArray) : Except SystemError Machine := do
  pure { m with files := ← m.files.write m.home path bytes }

/-- Makes a directory and those that lead to it. -/
def makeDirectories (m : Machine) (path : String) : Except SystemError Machine := do
  pure { m with files := ← m.files.makeDirectories m.home (path.length + 1) path }

/-- Makes the directory that a file is to be in. -/
def makeRoom (m : Machine) (path : String) : Except Failure Machine :=
  match Path.parent? path with
  | none | some "" => .ok m
  | some above =>
    match m.makeDirectories above with
    | .ok m => .ok m
    | .error e => .error (.io above e)

/-- Writes a file, together with the directories that lead to it. The directories stay even where the
    file can not be written. -/
def save (m : Machine) (path : String) (bytes : ByteArray) : Except Failure Unit × Machine :=
  match m.makeRoom path with
  | .error e => (.error e, m)
  | .ok m =>
    match m.write path bytes with
    | .ok m => (.ok (), m)
    | .error e => (.error (.io path e), m)

/-- Runs a program to its end. -/
def execute (m : Machine) (program : String) (arguments : List String) (input : ByteArray) :
    Except SystemError Shell.Outcome × Machine :=
  match Shell.execute m.files m.home m.search program arguments input with
  | .ok (o, files) => (.ok o, { m with files })
  | .error e => (.error e, m)

/-- Runs a program to its end while its input is written to it. -/
def feed (program : String) (arguments : List String) (input : ByteArray) (m : Machine) :
    Except SystemError Fed × Machine :=
  match m.execute program arguments input with
  | (.ok o, m) => (.ok ⟨m.pipe input.size o.taken, .ok o⟩, m)
  | (.error e, m) => (.error e, m)

end Machine

end Schematic
