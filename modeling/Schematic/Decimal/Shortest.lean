/-! The shortest decimal that reads back as a given binary number: of all decimals that round to it,
    one with the fewest digits, and of those the one nearest to it. -/

namespace Schematic

/-- A number `digits * 10 ^ exponent`. -/
structure Decimal where
  digits : Nat
  exponent : Int

namespace Decimal

/-- A positive number `mantissa * 2 ^ exponent` whose neighbour below is at half the usual distance
    when `narrow` holds. -/
structure Binary where
  mantissa : Nat
  exponent : Int
  narrow : Bool

/-- Reads a finite number other than zero, without its sign, off its 64 bits. -/
def Binary.ofBits (bits : UInt64) : Binary :=
  let fraction := (bits &&& 0xFFFFFFFFFFFFF).toNat
  let scale := ((bits >>> 52) &&& 0x7FF).toNat
  if scale = 0 then ⟨fraction, -1074, false⟩
  else ⟨fraction + 0x10000000000000, scale - 1075, fraction = 0 && scale > 1⟩

/-- A fraction with its rounding interval, all over one denominator. -/
structure Interval where
  low : Nat
  value : Nat
  high : Nat
  denominator : Nat
  /-- The ends of the interval round to the value too. -/
  closed : Bool

/-- The numbers that round to a binary number: up to half the distance to its neighbours. -/
def Binary.interval (b : Binary) : Interval :=
  let up := Nat.pow 2 b.exponent.toNat
  { low := (4 * b.mantissa - (if b.narrow then 1 else 2)) * up
    value := 4 * b.mantissa * up
    high := (4 * b.mantissa + 2) * up
    denominator := 4 * Nat.pow 2 (-b.exponent).toNat
    closed := b.mantissa % 2 = 0 }

/-- The interval in units of `10 ^ exponent`. -/
def Interval.scale (i : Interval) (exponent : Int) : Interval :=
  let up := Nat.pow 10 (-exponent).toNat
  { i with
    low := i.low * up
    value := i.value * up
    high := i.high * up
    denominator := i.denominator * Nat.pow 10 exponent.toNat }

/-- The whole number lies in the interval. -/
def Interval.holds (i : Interval) (n : Nat) : Bool :=
  if i.closed then i.low ≤ n * i.denominator && n * i.denominator ≤ i.high
  else i.low < n * i.denominator && n * i.denominator < i.high

/-- The whole number in the interval that is nearest to the value, of the two around the value. -/
def Interval.nearest? (i : Interval) : Option Nat :=
  let below := i.value / i.denominator
  let rest := i.value % i.denominator
  match i.holds below && below > 0, i.holds (below + 1) with
  | true, true => some (if 2 * rest < i.denominator then below else below + 1)
  | true, false => some below
  | false, true => some (below + 1)
  | false, false => none

/-- The power of ten of the first digit of the value. -/
def Interval.magnitude (i : Interval) : Int :=
  if i.denominator ≤ i.value then (Nat.toDigits 10 (i.value / i.denominator)).length - 1
  else -((List.range 400).find? fun k => i.denominator ≤ i.value * Nat.pow 10 k).getD 400

/-- The first of the grids of 1, 2, … digits on which the interval has a point. -/
def Interval.shortest (i : Interval) : Decimal :=
  let found := (List.range 17).findSome? fun (k : Nat) =>
    ((i.scale (i.magnitude - k)).nearest?).map (Decimal.mk · (i.magnitude - k))
  found.getD ⟨0, 0⟩

/-- The digits of a decimal without zeros at its end, and the power of ten of the first of them. -/
def parts (d : Decimal) : List Char × Int :=
  let all := Nat.toDigits 10 d.digits
  ((all.reverse.dropWhile (· = '0')).reverse, d.exponent + all.length - 1)

/-- Digits with a point behind the first `whole` of them and something behind the point. -/
def pointed (whole : Nat) (ds : List Char) : List Char :=
  let filled := ds ++ List.replicate (whole + 1 - ds.length) '0'
  filled.take whole ++ '.' :: filled.drop whole

/-- Writes digits whose first stands for the given power of ten without an exponent. -/
def positional (ds : List Char) (power : Int) : List Char :=
  if 0 ≤ power then pointed (power.toNat + 1) ds
  else pointed 1 (List.replicate (-power).toNat '0' ++ ds)

/-- Writes digits with one of them in front of the point, and an exponent with its sign. A digit that
    stands alone has no point. -/
def scientific (ds : List Char) (power : Int) : List Char :=
  let front := if ds.length ≤ 1 then ds else pointed 1 ds
  front ++ 'e' :: (if 0 ≤ power then '+' else '-') :: Nat.toDigits 10 power.natAbs

/-- Writes a decimal. Numbers below `10 ^ -5` and those from `10 ^ 16` on have an exponent. -/
def text (d : Decimal) : String :=
  let (ds, power) := d.parts
  String.ofList (if -5 ≤ power && power < 16 then positional ds power else scientific ds power)

/-- Writes a finite number with the fewest digits that read back as it. -/
def ofFloat (x : Float) : String :=
  let bits := x.toBits
  let sign := if bits >>> 63 = 1 then "-" else ""
  if bits &&& 0x7FFFFFFFFFFFFFFF = 0 then sign ++ "0.0"
  else sign ++ (Binary.ofBits bits).interval.shortest.text

end Decimal

end Schematic
