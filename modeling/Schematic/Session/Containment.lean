import Schematic.Session.Basic

/-! What is inside what. A node is in at most one container at a time: an instance on a host counts
    as being wherever its host is, and a node that is put elsewhere leaves its old group first.
    A group never comes to lie inside itself; a placement that would do that changes nothing. -/

namespace Schematic.Session

/-! ### Looking outwards -/

/-- The container one step further out: the host of an instance that has one, else the group. -/
def outer? (s : Session) (n : Node) : Option Node :=
  match n with
  | .inst i =>
    match s.hostOf? i with
    | some h => some (.host h)
    | none => (s.groupOf? n).map .group
  | n => (s.groupOf? n).map .group

/-- The containers around `n`, innermost first, at most `bound` of them. -/
def ancestorsUpTo (s : Session) : Nat → Node → List Node
  | 0, _ => []
  | bound + 1, n =>
    match s.outer? n with
    | none => []
    | some o => o :: s.ancestorsUpTo bound o

/-- Enough steps to leave every container: one host, and each group once. -/
def nestingBound (s : Session) : Nat := s.groups.size + 1

/-- The containers around `n`, innermost first. -/
def ancestors (s : Session) (n : Node) : List Node := s.ancestorsUpTo s.nestingBound n

/-- The container of `n` that is in no container itself, or `n` when nothing is around it. -/
def outermost (s : Session) (n : Node) : Node := (s.ancestors n).getLast?.getD n

/-- The node that stands for `n` in groups: the host of an instance that has one, else `n`. -/
def standIn (s : Session) : Node → Node
  | .inst i =>
    match s.hostOf? i with
    | some h => .host h
    | none => .inst i
  | n => n

/-- Putting `n` into `g` would put a group inside itself. -/
def encloses (s : Session) (n : Node) (g : GroupKey) : Bool :=
  match n with
  | .group _ => decide (n = .group g) || (s.ancestors (.group g)).contains n
  | _ => false

/-! ### Moving nodes -/

/-- Writes down, on the side of the node, which group it is in. -/
def setGroup (s : Session) (n : Node) (g : Option GroupKey) : Session :=
  match n with
  | .inst i => s.modifyInstance i fun inst => { inst with group := g }
  | .host h => s.modifyHost h fun host => { host with group := g }
  | .group k => s.modifyGroup k fun group => { group with group := g }

/-- Rewrites the list of children of a group. -/
def modifyChildren (s : Session) (g : GroupKey) (f : List Node → List Node) : Session :=
  s.modifyGroup g fun group => { group with children := f group.children }

/-- Rewrites the list of instances of a host. -/
def modifyResidents (s : Session) (h : HostKey) (f : List InstanceKey → List InstanceKey) : Session :=
  s.modifyHost h fun host => { host with instances := f host.instances }

/-- Takes a node out of the group it is in. -/
def leaveGroup (s : Session) (n : Node) : Session :=
  match s.groupOf? n with
  | none => s
  | some g => (s.modifyChildren g (·.filter (· ≠ n))).setGroup n none

/-- Puts a node at the end of a group. -/
def enterGroup (s : Session) (n : Node) (g : GroupKey) : Session :=
  (s.modifyChildren g (· ++ [n])).setGroup n (some g)

/-- Puts a node into a group. An instance on a host takes its host along, a node that is there
    already stays where it is, and a group is not put inside itself. -/
def placeIn (s : Session) (n : Node) (g : GroupKey) : Session :=
  let n := s.standIn n
  if s.groupOf? n = some g then s
  else if s.encloses n g then s
  else (s.leaveGroup n).enterGroup n g

/-- Puts `new` where the first `old` is, or at the end when there is none. -/
def swapOrAppend (old new : Node) : List Node → List Node
  | [] => [new]
  | n :: ns => if n = old then new :: ns else n :: swapOrAppend old new ns

/-- Lets a host take the place that an instance had in group `g`. -/
def takePlace (s : Session) (i : InstanceKey) (h : HostKey) (g : GroupKey) : Session :=
  if s.groupOf? (.host h) = some g then
    s.modifyChildren g (·.filter (· ≠ .inst i))
  else
    ((s.leaveGroup (.host h)).modifyChildren g (swapOrAppend (.inst i) (.host h))).setGroup (.host h)
      (some g)

/-- Takes an instance off the host it is on. -/
def leaveHost (s : Session) (i : InstanceKey) : Session :=
  match s.hostOf? i with
  | none => s
  | some h => s.modifyResidents h (·.filter (· ≠ i))

/-- Takes an instance out of its group, where host `h` takes over its place. -/
def yieldPlace (s : Session) (i : InstanceKey) (h : HostKey) : Session :=
  match s.groupOf? (.inst i) with
  | none => s
  | some g => (s.setGroup (.inst i) none).takePlace i h g

/-- Puts an instance at the end of a host. -/
def enterHost (s : Session) (i : InstanceKey) (h : HostKey) : Session :=
  (s.modifyResidents h (· ++ [i])).modifyInstance i fun inst => { inst with host := some h }

/-- Puts an instance on a host. If the instance was in a group, the host takes its place there. -/
def placeOn (s : Session) (i : InstanceKey) (h : HostKey) : Session :=
  if s.hostOf? i = some h then s
  else ((s.leaveHost i).yieldPlace i h).enterHost i h

/-- Puts instances on a host, one after the other. -/
def placeAllOn (s : Session) (h : HostKey) (instances : List InstanceKey) : Session :=
  instances.foldl (fun s i => s.placeOn i h) s

end Schematic.Session
