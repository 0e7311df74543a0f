import Schematic.Session.Containment

/-! The nesting of a diagram as a tree: an instance is a leaf, a host holds its instances, a group
    holds whatever is in it. -/

namespace Schematic.Dot

/-- What is drawn for a node: a leaf for an instance, a cluster for what holds others. -/
inductive Block where
  | leaf (key : InstanceKey)
  | cluster (node : Node) (body : List Block)

/-- The block of a node, with groups followed at most `depth` deep. -/
def blockUpTo (s : Session) : Nat → Node → Block
  | _, .inst i => .leaf i
  | _, .host h => .cluster (.host h) ((s.residents h).map .leaf)
  | 0, .group g => .cluster (.group g) []
  | depth + 1, .group g => .cluster (.group g) ((s.children g).map (blockUpTo s depth))

/-- The block of a node with everything inside it. -/
def block (s : Session) (n : Node) : Block := blockUpTo s s.groups.size n

/-- The node that a block draws. -/
def Block.node : Block → Node
  | .leaf i => .inst i
  | .cluster n _ => n

end Schematic.Dot
