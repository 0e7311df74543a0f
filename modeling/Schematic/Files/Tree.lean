import Schematic.Failure
import Schematic.Files.Path

/-! A tree of files. A place in the tree is given by the names that lead to it from the root; the root
    is always there. Paths are followed name by name from a place, and whatever stands in the way is
    the error. -/

namespace Schematic

/-- The programs that come with every tree. -/
inductive Tool where
  | shell
  | env
  | cat
  | wc
  | tr
  | head
  | tee
  | touch
  | mkdir
  | rm
  | sleep
  | echo
  | printf
  | yes
  | no
  deriving DecidableEq

inductive Entry where
  | directory
  | file (bytes : ByteArray) (executable : Bool)
  /-- Takes everything and holds nothing. -/
  | sink
  | tool (t : Tool)

abbrev Location := List String

structure FileTree where
  entries : List (Location × Entry) := []

namespace FileTree

def find? (t : FileTree) (l : Location) : Option Entry :=
  if l = [] then some .directory else t.entries.lookup l

def set (t : FileTree) (l : Location) (e : Entry) : FileTree :=
  ⟨(l, e) :: t.entries.filter (·.1 ≠ l)⟩

def erase (t : FileTree) (l : Location) : FileTree := ⟨t.entries.filter (·.1 ≠ l)⟩

/-- Adds an entry with the directories that lead to it. -/
def plant (t : FileTree) (l : Location) (e : Entry) : FileTree :=
  let above := (List.range (l.length - 1)).map fun n => l.take (n + 1)
  let t := above.foldl (fun t d => if (t.find? d).isSome then t else t.set d .directory) t
  t.set l e

/-! ### Following paths -/

/-- The parts of a path between slashes, without empty ones. -/
def parts (path : String) : List String :=
  let add (c : Char) (acc : List (List Char)) : List (List Char) :=
    if c = '/' then [] :: acc
    else
      match acc with
      | part :: rest => (c :: part) :: rest
      | [] => [[c]]
  ((path.toList.foldr add [[]]).filter (· ≠ [])).map String.ofList

/-- The longest name of a file, in bytes. -/
def maxName : Nat := 255

/-- The longest path, in bytes. -/
def maxPath : Nat := 4095

/-- One step along a path, from a directory. -/
def step (t : FileTree) (at_ : Location) (part : String) : Except SystemError (Location × Entry) :=
  if part = "." then .ok (at_, .directory)
  else if part = ".." then .ok (at_.dropLast, .directory)
  else if part.utf8ByteSize > maxName then .error .nameTooLong
  else
    match t.find? (at_ ++ [part]) with
    | some e => .ok (at_ ++ [part], e)
    | none => .error .notFound

/-- Follows parts that all need to be directories. -/
def descend (t : FileTree) (at_ : Location) : List String → Except SystemError Location
  | [] => .ok at_
  | part :: rest =>
    match t.step at_ part with
    | .ok (l, .directory) => t.descend l rest
    | .ok _ => .error .notDirectory
    | .error e => .error e

/-- The path ends in a slash, so that it can only name a directory. -/
def endsInSlash (path : String) : Bool := path.toList.getLast? = some '/'

/-- Where a path begins. -/
def start (home : Location) (path : String) : Location :=
  if path.toList.head? = some '/' then [] else home

/-- The place that a path leads to, going by its parts alone. -/
def place (home : Location) (path : String) : Location :=
  let go (l : Location) (part : String) : Location :=
    if part = "." then l else if part = ".." then l.dropLast else l ++ [part]
  (parts path).foldl go (start home path)

/-- What is wrong with a path as such. -/
def pathError? (path : String) : Option SystemError :=
  if path.toList.contains '\x00' then some .nulInFileName
  else if path.isEmpty then some .notFound
  else if path.utf8ByteSize > maxPath then some .nameTooLong
  else none

/-- The directory that a path leads to last, and the last part, if there is one. -/
def approach (t : FileTree) (home : Location) (path : String) :
    Except SystemError (Location × Option String) := do
  if let some e := pathError? path then throw e
  let ps := parts path
  pure (← t.descend (start home path) ps.dropLast, ps.getLast?)

/-- What a path names. -/
def locate (t : FileTree) (home : Location) (path : String) :
    Except SystemError (Location × Entry) := do
  match ← t.approach home path with
  | (l, none) => pure (l, .directory)
  | (l, some part) =>
    match ← t.step l part with
    | (l, .directory) => pure (l, .directory)
    | (l, e) => if endsInSlash path then throw .notDirectory else pure (l, e)

def isDirectory (t : FileTree) (home : Location) (path : String) : Bool :=
  match t.locate home path with
  | .ok (_, .directory) => true
  | _ => false

/-! ### Reading and writing -/

/-- The contents of a file. -/
def read (t : FileTree) (home : Location) (path : String) : Except SystemError ByteArray := do
  match ← t.locate home path with
  | (_, .directory) => throw .isDirectory
  | (_, .file bytes _) => pure bytes
  | _ => pure .empty

/-- Changes the contents of a file, or makes a new one. -/
def update (t : FileTree) (home : Location) (path : String) (change : ByteArray → ByteArray) :
    Except SystemError FileTree := do
  match ← t.approach home path with
  | (_, none) => throw .isDirectory
  | (l, some part) =>
    match t.step l part with
    | .ok (_, .directory) => throw .isDirectory
    | .ok (l, .file bytes executable) =>
      if endsInSlash path then throw .notDirectory
      else pure (t.set l (.file (change bytes) executable))
    | .ok _ => pure t
    | .error .notFound =>
      if endsInSlash path then throw .isDirectory
      else pure (t.set (l ++ [part]) (.file (change .empty) false))
    | .error e => throw e

/-- Writes a file anew. -/
def write (t : FileTree) (home : Location) (path : String) (bytes : ByteArray) :
    Except SystemError FileTree := t.update home path fun _ => bytes

/-- Makes a directory. -/
def makeDirectory (t : FileTree) (home : Location) (path : String) :
    Except SystemError FileTree := do
  match ← t.approach home path with
  | (_, none) => throw .alreadyExists
  | (l, some part) =>
    match t.step l part with
    | .ok _ => throw .alreadyExists
    | .error .notFound => pure (t.set (l ++ [part]) .directory)
    | .error e => throw e

/-- Makes a directory with all those that lead to it. A directory that is there already is fine. -/
def makeDirectories (t : FileTree) (home : Location) : Nat → String → Except SystemError FileTree
  | 0, _ => .error .notFound
  | fuel + 1, path => do
    if path.isEmpty then return t
    match t.makeDirectory home path with
    | .ok t => pure t
    | .error .notFound =>
      let some above := Path.parent? path | throw .notFound
      let t ← t.makeDirectories home fuel above
      match t.makeDirectory home path with
      | .ok t => pure t
      | .error e => if t.isDirectory home path then pure t else throw e
    | .error e => if t.isDirectory home path then pure t else throw e

end FileTree

end Schematic
