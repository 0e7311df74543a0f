/-! Bytes as text. Bytes that are no text are shown as U+FFFD, one for each longest piece that could
    have been the beginning of a character. -/

namespace Schematic.Text

/-- The byte continues a character. -/
def isTrailing (b : UInt8) : Bool := 0x80 ≤ b && b ≤ 0xBF

/-- The range of the second byte of a character of three or four bytes. -/
def secondRange (lead : UInt8) : UInt8 × UInt8 :=
  if lead = 0xE0 then (0xA0, 0xBF)
  else if lead = 0xED then (0x80, 0x9F)
  else if lead = 0xF0 then (0x90, 0xBF)
  else if lead = 0xF4 then (0x80, 0x8F)
  else (0x80, 0xBF)

/-- The byte may follow `lead`. -/
def isSecond (lead b : UInt8) : Bool := (secondRange lead).1 ≤ b && b ≤ (secondRange lead).2

/-- What stands for bytes that are no text. -/
def replacement : Char := '\ufffd'

/-- The low bits of a byte, moved up. -/
def bits (b : UInt8) (width shift : Nat) : Nat := b.toNat % Nat.pow 2 width * Nat.pow 2 shift

/-- The first character of some bytes, and how many bytes it takes. -/
def firstChar (lead : UInt8) (rest : List UInt8) : Char × Nat :=
  if lead < 0x80 then (Char.ofNat lead.toNat, 1)
  else if 0xC2 ≤ lead && lead ≤ 0xDF then
    match rest with
    | b :: _ =>
      if isTrailing b then (Char.ofNat (bits lead 5 6 + bits b 6 0), 2) else (replacement, 1)
    | [] => (replacement, 1)
  else if 0xE0 ≤ lead && lead ≤ 0xEF then
    match rest with
    | b :: c :: _ =>
      if !isSecond lead b then (replacement, 1)
      else if !isTrailing c then (replacement, 2)
      else (Char.ofNat (bits lead 4 12 + bits b 6 6 + bits c 6 0), 3)
    | [b] => (replacement, if isSecond lead b then 2 else 1)
    | [] => (replacement, 1)
  else if 0xF0 ≤ lead && lead ≤ 0xF4 then
    match rest with
    | b :: c :: d :: _ =>
      if !isSecond lead b then (replacement, 1)
      else if !isTrailing c then (replacement, 2)
      else if !isTrailing d then (replacement, 3)
      else (Char.ofNat (bits lead 3 18 + bits b 6 12 + bits c 6 6 + bits d 6 0), 4)
    | [b, c] => (replacement, if !isSecond lead b then 1 else if !isTrailing c then 2 else 3)
    | [b] => (replacement, if isSecond lead b then 2 else 1)
    | [] => (replacement, 1)
  else (replacement, 1)

/-- The characters of some bytes; `skip` bytes at the start belong to the character before. -/
def lossyChars : Nat → List UInt8 → List Char
  | _, [] => []
  | 0, b :: r => let (c, n) := firstChar b r; c :: lossyChars (n - 1) r
  | skip + 1, _ :: r => lossyChars skip r

/-- Bytes as a text, whatever they are. -/
def lossy (bytes : ByteArray) : String :=
  match String.fromUTF8? bytes with
  | some s => s
  | none => String.ofList (lossyChars 0 bytes.toList)

end Schematic.Text
