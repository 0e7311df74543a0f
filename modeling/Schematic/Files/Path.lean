import Schematic.Text.Blank

/-! Paths as texts, parts set off by slashes. Empty parts and parts `.` inside a path do not count; a
    path may begin with a slash, or with `.`, which is kept. -/

namespace Schematic.Path

/-- The beginning of a path that is no part of its own, and the rest. -/
def lead (path : List Char) : List Char × List Char :=
  match path with
  | '/' :: r => (['/'], r)
  | '.' :: '/' :: r => (['.'], '/' :: r)
  | ['.'] => (['.'], [])
  | r => ([], r)

/-- The part does not count. -/
def isIdle (part : List Char) : Bool := part = [] || part = ['.']

/-- Drops idle parts from the end of a path that is given last character first. -/
def dropIdle : Nat → List Char → List Char
  | 0, rev => rev
  | fuel + 1, rev =>
    let part := rev.takeWhile (· ≠ '/')
    if isIdle part.reverse then
      match rev.dropWhile (· ≠ '/') with
      | [] => []
      | _ :: r => dropIdle fuel r
    else rev

/-- The path without its last part, and that part, if there is any. -/
def splitLast? (path : String) : Option (String × String) :=
  let (front, body) := lead path.toList
  match dropIdle (body.length + 1) body.reverse with
  | [] => if front = ['.'] then some ("", ".") else none
  | rev =>
    let part := (rev.takeWhile (· ≠ '/')).reverse
    let before := dropIdle (body.length + 1) (rev.dropWhile (· ≠ '/')).tail
    some (String.ofList (front ++ before.reverse), String.ofList part)

/-- The directory that a path is in, which is empty for a path of one part. -/
def parent? (path : String) : Option String := (splitLast? path).map (·.1)

/-- The name of the file, unless the path ends in `.` or `..`. -/
def fileName? (path : String) : Option String :=
  match splitLast? path with
  | some (_, part) => if part = "." ∨ part = ".." then none else some part
  | none => none

/-- What stands behind the last dot of the file's name, when something stands before it. -/
def extension? (path : String) : Option String := do
  let rev := (← fileName? path).toList.reverse
  match rev.dropWhile (· ≠ '.') with
  | [] | ['.'] => none
  | _ => some (String.ofList (rev.takeWhile (· ≠ '.')).reverse)

/-- A path that leads from a directory to a name; a name that begins with a slash stands alone. -/
def join (dir name : String) : String :=
  if name.toList.head? = some '/' then name
  else if dir.toList.getLast?.all (· = '/') then dir ++ name
  else dir ++ "/" ++ name

end Schematic.Path
