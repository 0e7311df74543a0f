/-! Blank characters and the two text rules that name look-up rests on: blank characters at both
    ends of a name do not count, and neither does the case of the letters `A` to `Z`. -/

namespace Schematic.Text

/-- The characters with the Unicode property White_Space. -/
def isBlank (c : Char) : Bool :=
  (0x09 ≤ c.val && c.val ≤ 0x0D) || c.val == 0x20 || c.val == 0x85 || c.val == 0xA0
    || c.val == 0x1680 || (0x2000 ≤ c.val && c.val ≤ 0x200A) || c.val == 0x2028 || c.val == 0x2029
    || c.val == 0x202F || c.val == 0x205F || c.val == 0x3000

/-- Drops the characters satisfying `p` from the end. -/
def dropEndWhile (p : Char → Bool) (cs : List Char) : List Char := (cs.reverse.dropWhile p).reverse

/-- Drops the characters satisfying `p` from both ends. -/
def trimWhere (p : Char → Bool) (s : String) : String :=
  String.ofList (dropEndWhile p (s.toList.dropWhile p))

/-- The text without the blank characters at its ends. -/
def trim (s : String) : String := trimWhere isBlank s

/-- `A` to `Z` become `a` to `z`, every other character stays. -/
def lower (s : String) : String := String.ofList (s.toList.map Char.toLower)

/-- The form in which a name is looked up. -/
def folded (s : String) : String := lower (trim s)

end Schematic.Text
