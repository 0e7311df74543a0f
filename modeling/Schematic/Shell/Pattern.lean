/-! Wildcard patterns: `*` for any text, `?` for any character, brackets for one of several. Quoted
    characters stand for themselves. -/

namespace Schematic.Shell

/-- A character of a pattern, and whether it is quoted. -/
abbrev PatternChar := Char × Bool

/-- The character is one of those in brackets, or between two of them. -/
def inSet (c : Char) : List Char → Bool
  | a :: '-' :: b :: r => (a ≤ c && c ≤ b) || inSet c r
  | a :: r => a = c || inSet c r
  | [] => false

/-- Splits off what stands in brackets. -/
def splitSet (cs : List PatternChar) : Option (List Char × List PatternChar) :=
  match cs with
  | [] => none
  | first :: rest =>
    let inner := rest.takeWhile fun p => p ≠ (']', false)
    match rest.drop inner.length with
    | [] => none
    | _ :: r => some ((first :: inner).map (·.1), r)

/-- The whole text fits the pattern. -/
def fits : Nat → List PatternChar → List Char → Bool
  | 0, _, _ => false
  | _ + 1, [], cs => cs.isEmpty
  | fuel + 1, ('*', false) :: ps, [] => fits fuel ps []
  | fuel + 1, ('*', false) :: ps, c :: cs =>
    fits fuel ps (c :: cs) || fits fuel (('*', false) :: ps) cs
  | fuel + 1, ('?', false) :: ps, _ :: cs => fits fuel ps cs
  | fuel + 1, ('[', false) :: ps, c :: cs =>
    match splitSet ps with
    | some ('!' :: set, r) => !inSet c set && fits fuel r cs
    | some (set, r) => inSet c set && fits fuel r cs
    | none => c = '[' && fits fuel ps cs
  | fuel + 1, (p, _) :: ps, c :: cs => p = c && fits fuel ps cs
  | _ + 1, _ :: _, [] => false

def fitsAll (ps : List PatternChar) (s : String) : Bool :=
  fits (ps.length + s.length + 1) ps s.toList

/-- All ways to cut a text in two, the shortest first part first. -/
def cuts (s : String) : List (String × String) :=
  (List.range (s.length + 1)).map fun n =>
    (String.ofList (s.toList.take n), String.ofList (s.toList.drop n))

/-- Drops a beginning that fits, the shortest or the longest one. -/
def dropStart (longest : Bool) (ps : List PatternChar) (s : String) : String :=
  let ways := if longest then (cuts s).reverse else cuts s
  ((ways.find? fun w => fitsAll ps w.1).map (·.2)).getD s

/-- Drops an end that fits, the shortest or the longest one. -/
def dropEnd (longest : Bool) (ps : List PatternChar) (s : String) : String :=
  let ways := if longest then cuts s else (cuts s).reverse
  ((ways.find? fun w => fitsAll ps w.2).map (·.1)).getD s

end Schematic.Shell
