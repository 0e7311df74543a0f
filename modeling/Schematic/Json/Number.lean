import Schematic.Json.Value

/-! Reading the numbers of JSON. A whole number that fits into 64 bits stays whole. Any other number
    becomes a binary one in a fixed way, which is not always the nearest: its first digits, as many as
    fit into 64 bits, are taken as a whole number, rounded, and then multiplied or divided by a
    power of ten. -/

namespace Schematic.Json

/-- A number as it is spelled; its whole digits are never empty. -/
structure Spelling where
  negative : Bool
  whole : List Char
  /-- The digits after the point, if there is a point. -/
  places : Option (List Char)
  /-- The exponent with its sign, if there is one. -/
  exponent : Option (Bool × List Char)

namespace Spelling

def digit (c : Char) : Nat := c.toNat - '0'.toNat

/-- The number that decimal digits spell. -/
def ofDigits (ds : List Char) : Nat := ds.foldl (fun n c => 10 * n + digit c) 0

/-- Digits after `e` and its sign. -/
def readExponent (cs : List Char) : Option (Option (Bool × List Char) × List Char) :=
  match cs with
  | c :: r =>
    if c = 'e' ∨ c = 'E' then
      let (negative, r) := match r with
        | '+' :: r => (false, r)
        | '-' :: r => (true, r)
        | r => (false, r)
      match r.span Char.isDigit with
      | ([], _) => none
      | (ds, r) => some (some (negative, ds), r)
    else some (none, cs)
  | [] => some (none, cs)

/-- The digits after a point. -/
def readPlaces (cs : List Char) : Option (Option (List Char) × List Char) :=
  match cs with
  | '.' :: r =>
    match r.span Char.isDigit with
    | ([], _) => none
    | (ds, r) => some (some ds, r)
  | r => some (none, r)

/-- Digits without a zero in front of others. -/
def readWhole (cs : List Char) : Option (List Char × List Char) :=
  match cs.span Char.isDigit with
  | ([], _) => none
  | ('0' :: _ :: _, _) => none
  | (ds, r) => some (ds, r)

/-- Reads a number and what follows it. -/
def read? (cs : List Char) : Option (Spelling × List Char) := do
  let (negative, cs) := match cs with
    | '-' :: r => (true, r)
    | r => (false, r)
  let (whole, cs) ← readWhole cs
  let (places, cs) ← readPlaces cs
  let (exponent, cs) ← readExponent cs
  pure (⟨negative, whole, places, exponent⟩, cs)

/-! ### Values -/

/-- Takes digits up to the first that does not fit into 64 bits any more; gives the number and how
    many digits were taken. -/
def takeDigits (start : Nat) (ds : List Char) : Nat × Nat :=
  match ds with
  | [] => (start, 0)
  | c :: r =>
    if UInt64.size ≤ 10 * start + digit c then (start, 0)
    else
      let (n, taken) := takeDigits (10 * start + digit c) r
      (n, taken + 1)

/-- The power of ten as a binary number. -/
def tenTo (n : Nat) : Float := Float.ofScientific 1 false n

/-- Moves the point of a binary number; `none` when the number becomes too large. -/
def shift (x : Float) (exponent : Int) : Nat → Option Float
  | 0 => some x
  | steps + 1 =>
    if exponent.natAbs ≤ 308 then
      if 0 ≤ exponent then
        let y := x * tenTo exponent.natAbs
        if y.isInf then none else some y
      else some (x / tenTo exponent.natAbs)
    else if x == 0 then some x
    else if 0 ≤ exponent then none
    else shift (x / tenTo 308) (exponent + 308) steps

/-- The largest exponent that is read; the rule for longer ones is that of `toReal?`. -/
def maxExponent : Nat := 0x7FFFFFFF

/-- The number without its sign, as a binary number. -/
def toReal? (s : Spelling) : Option Float :=
  let (n, taken) := takeDigits 0 s.whole
  let (n, places) := takeDigits n (s.places.getD [])
  let point : Int := (s.whole.length - taken : Nat) - places
  let x := Float.ofNat n
  match s.exponent with
  | none => shift x point 10
  | some (negative, ds) =>
    let e := ofDigits ds
    if e > maxExponent then if n = 0 ∨ negative then some 0 else none
    else if negative then shift x (max (point - e) (-maxExponent - 1)) (e / 308 + 10)
    else shift x (min (point + e) maxExponent) 10

/-- The number that is spelled; `none` when it is too large for a binary number. -/
def toNumber? (s : Spelling) : Option Number :=
  let n := ofDigits s.whole
  let whole := s.places.isNone && s.exponent.isNone
  if whole && !s.negative && n < UInt64.size then some (.whole n)
  else if whole && s.negative && 0 < n && n ≤ 0x8000000000000000 then some (.whole (-n))
  else s.toReal?.map fun x => .real (if s.negative then -x else x)

end Spelling

/-- Reads a number and what follows it. -/
def readNumber? (cs : List Char) : Option (Number × List Char) := do
  let (s, rest) ← Spelling.read? cs
  let n ← s.toNumber?
  pure (n, rest)

end Schematic.Json
