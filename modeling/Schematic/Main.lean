import Schematic.CommandLine

/-! The program. A call works on a machine of its own: before it the files that the arguments name
    are fetched into that machine, and after it what has changed there is written back. -/

namespace Schematic

/-- The bytes of a file of the outer system, if there is such a file. -/
def fileBytes? (path : String) : IO (Option ByteArray) := do
  let .ok b ← (IO.FS.readBinFile path).toBaseIO | return none
  return some b

/-- The path leads to a directory of the outer system. -/
def isOuterDirectory (path : String) : IO Bool := do
  let .ok _ ← (IO.FS.realPath (path ++ "/.")).toBaseIO | return false
  return true

/-- Fetches what a path leads to. -/
def fetch (home : Location) (executable : Bool) (t : FileTree) (path : String) : IO FileTree := do
  let l := FileTree.place home path
  if ← isOuterDirectory path then return t.plant l .directory
  match ← fileBytes? path with
  | some b => return t.plant l (.file b executable)
  | none => return t

/-- The paths that a call may read from or write to, as far as its arguments show them. -/
def CommandLine.Request.paths (r : Request) : List String :=
  let above (path : String) : List String := (Path.parent? path).toList.filter (!·.isEmpty)
  r.input.toList.filter (· ≠ "-") ++ (r.html.toList.flatMap above ++ r.html.toList)
    ++ [r.outDir.getD ({} : Options).outDir]

/-- Writes an entry of a tree to the outer system. -/
def deposit (l : Location) (e : Entry) : IO Unit := do
  let path := "/" ++ "/".intercalate l
  match e with
  | .directory => IO.FS.createDirAll path
  | .file b _ => IO.FS.writeBinFile path b
  | _ => pure ()

/-- The entry is not in the tree. -/
def Entry.isNewIn (t : FileTree) (l : Location) : Entry → Bool
  | .directory => (t.find? l).isNone
  | .file b _ =>
    match t.find? l with
    | some (.file old _) => old != b
    | _ => true
  | _ => false

/-- Writes back what is new in a tree, directories from the outermost on and then files. -/
def writeBack (before after : FileTree) : IO Unit := do
  let new := after.entries.filter fun (l, e) => e.isNewIn before l
  let (directories, files) := new.partition fun
    | (_, .directory) => true
    | _ => false
  for (l, e) in directories.mergeSort (fun a b => a.1.length ≤ b.1.length) ++ files do
    deposit l e

/-- Everything on the standard input, unless the call does not read it. -/
def readInput (r : CommandLine.Request) : IO ByteArray := do
  if r.input.any (· ≠ "-") then return .empty
  (← IO.getStdin).readBinToEnd

end Schematic

open Schematic in
def main (args : List String) : IO UInt32 := do
  let home := FileTree.parts (toString (← IO.currentDir))
  let search := ((← IO.getEnv "PATH").getD "").splitOn ":"
  let request := (CommandLine.parse args).getD {}
  let mut files := FileTree.system.plant home .directory
  for path in request.paths do
    files ← fetch home false files path
  for dir in search do
    files ← fetch home true files (Path.join dir Graphviz.standardProgram)
  let stdin ← if (CommandLine.parse args).isSome then readInput request else pure .empty
  let r := CommandLine.call args { files, home, search } stdin
  writeBack files r.machine.files
  IO.print r.stdout
  IO.eprint r.stderr
  return r.code.toUInt32
