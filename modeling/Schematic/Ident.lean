/-! Identity of the elements of a diagram. One counter numbers elements of every kind, so the number
    alone tells two elements apart and gives the order in which they were made; the kind only shows
    in the printed form, `host_101`. The counter is a 64-bit word and wraps around. -/

namespace Schematic

/-- A number with the name of the kind of element that carries it. -/
structure Ident where
  kind : String
  number : UInt64

namespace Ident

/-- Idents are the same when their numbers are. -/
instance : BEq Ident := ⟨fun a b => a.number == b.number⟩

/-- Idents are ordered by number, that is by the moment of creation. -/
instance : Ord Ident := ⟨fun a b => compare a.number b.number⟩

/-- `a` was made before `b`. -/
def before (a b : Ident) : Bool := a.number < b.number

/-- `a` was not made after `b`. -/
def upTo (a b : Ident) : Bool := a.number ≤ b.number

/-- The printed form, `kind_number`. -/
def text (a : Ident) : String := a.kind ++ "_" ++ toString a.number.toNat

/-- Idents from the oldest to the newest. -/
def sort (ids : List Ident) : List Ident := ids.mergeSort upTo

end Ident

/-- Hands out idents: `next` is the number of the next one, `first` that of the very first. -/
structure Counter where
  first : UInt64 := 100
  next : UInt64 := first

namespace Counter

/-- A counter whose first ident has the number `first`. -/
def startingAt (first : UInt64) : Counter := { first }

/-- The next ident and the counter after it. -/
def take (c : Counter) (kind : String) : Ident × Counter :=
  (⟨kind, c.next⟩, { c with next := c.next + 1 })

/-- One ident for each kind, in turn. -/
def takeAll (c : Counter) : List String → List Ident × Counter
  | [] => ([], c)
  | kind :: kinds =>
    let (id, c) := c.take kind
    let (ids, c) := c.takeAll kinds
    (id :: ids, c)

/-- How many idents were handed out, as long as the counter has not wrapped around. -/
def taken (c : Counter) : UInt64 := c.next - c.first

end Counter

end Schematic
