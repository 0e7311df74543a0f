import Schematic.Ident
import Schematic.Theme

/-! A drawing session: the instances, hosts, groups and links that were declared, each kind in the
    order of declaration. Elements are named by keys, their positions in that order.

    What holds what is written down on both sides. A host lists its instances and every instance
    knows its host; a group lists its children and every node knows its group. The operations of
    `Schematic.Session.Containment` keep the two sides equal. -/

namespace Schematic

structure InstanceKey where
  index : Nat
  deriving DecidableEq

structure HostKey where
  index : Nat
  deriving DecidableEq

structure GroupKey where
  index : Nat
  deriving DecidableEq

structure LinkKey where
  index : Nat
  deriving DecidableEq

structure ChainKey where
  index : Nat
  deriving DecidableEq

/-- Whatever can be put into a group. -/
inductive Node where
  | inst (key : InstanceKey)
  | host (key : HostKey)
  | group (key : GroupKey)
  deriving DecidableEq

/-- A process, or a unit of deployment. -/
structure Instance where
  ident : Ident
  name : String
  /-- Everything said about the instance below its name, in one piece. -/
  notes : String := ""
  host : Option HostKey := none
  group : Option GroupKey := none
  /-- The instance by itself stands for many. -/
  multiple : Bool := false

/-- What instances run on. -/
structure Host where
  ident : Ident
  /-- The instances on this host, in order of arrival. -/
  instances : List InstanceKey := []
  group : Option GroupKey := none
  /-- The host, and with it all that runs on it, stands for many. -/
  multiple : Bool := false

/-- A boundary around nodes. Without a name it only shapes the layout. -/
structure Group where
  ident : Ident
  name : Option String := none
  /-- The nodes inside, in order of arrival. -/
  children : List Node := []
  group : Option GroupKey := none

/-- `source` uses `target`. -/
structure Link where
  ident : Ident
  source : InstanceKey
  target : InstanceKey
  chain : ChainKey
  label : Option String := none
  bidirectional : Bool := false
  configuration : Bool := false
  creation : Bool := false
  /-- The link is found at run time. -/
  dynamic : Bool := false
  multiple : Bool := false

structure Session where
  theme : Theme := .dark
  counter : Counter := {}
  instances : Array Instance := #[]
  hosts : Array Host := #[]
  groups : Array Group := #[]
  links : Array Link := #[]
  /-- The links of every chain, in order of declaration. -/
  chains : Array (List LinkKey) := #[]

/-- The text under an instance's name, if there is any. -/
def Instance.details? (i : Instance) : Option String :=
  if i.notes.isEmpty then none else some i.notes

namespace Session

/-- A session in which nothing is declared yet. -/
def fresh (theme : Theme) : Session := { theme }

def setTheme (s : Session) (theme : Theme) : Session := { s with theme }

/-! ### Looking at a session -/

def instance? (s : Session) (i : InstanceKey) : Option Instance := s.instances[i.index]?

def host? (s : Session) (h : HostKey) : Option Host := s.hosts[h.index]?

def group? (s : Session) (g : GroupKey) : Option Group := s.groups[g.index]?

def link? (s : Session) (l : LinkKey) : Option Link := s.links[l.index]?

/-- The links of a chain, in order of declaration. -/
def chain (s : Session) (c : ChainKey) : List LinkKey := s.chains[c.index]?.getD []

/-- The host an instance runs on. -/
def hostOf? (s : Session) (i : InstanceKey) : Option HostKey := (s.instance? i).bind (·.host)

/-- The group a node is directly in. -/
def groupOf? (s : Session) : Node → Option GroupKey
  | .inst i => (s.instance? i).bind (·.group)
  | .host h => (s.host? h).bind (·.group)
  | .group g => (s.group? g).bind (·.group)

/-- The instances on a host, in order of arrival. -/
def residents (s : Session) (h : HostKey) : List InstanceKey := ((s.host? h).map (·.instances)).getD []

/-- The nodes directly in a group, in order of arrival. -/
def children (s : Session) (g : GroupKey) : List Node := ((s.group? g).map (·.children)).getD []

def identOf? (s : Session) : Node → Option Ident
  | .inst i => (s.instance? i).map (·.ident)
  | .host h => (s.host? h).map (·.ident)
  | .group g => (s.group? g).map (·.ident)

/-- An instance stands for many by itself or by the host it runs on. -/
def isMany (s : Session) (i : InstanceKey) : Bool :=
  match s.instance? i with
  | none => false
  | some inst => inst.multiple || (inst.host.bind s.host?).any (·.multiple)

def instanceKeys (s : Session) : List InstanceKey := (List.range s.instances.size).map .mk

def hostKeys (s : Session) : List HostKey := (List.range s.hosts.size).map .mk

def groupKeys (s : Session) : List GroupKey := (List.range s.groups.size).map .mk

def linkKeys (s : Session) : List LinkKey := (List.range s.links.size).map .mk

/-- All instances, then all hosts, then all groups. -/
def nodes (s : Session) : List Node :=
  s.instanceKeys.map .inst ++ s.hostKeys.map .host ++ s.groupKeys.map .group

/-! ### Changing one element -/

def modifyInstance (s : Session) (i : InstanceKey) (f : Instance → Instance) : Session :=
  { s with instances := s.instances.modify i.index f }

def modifyHost (s : Session) (h : HostKey) (f : Host → Host) : Session :=
  { s with hosts := s.hosts.modify h.index f }

def modifyGroup (s : Session) (g : GroupKey) (f : Group → Group) : Session :=
  { s with groups := s.groups.modify g.index f }

def modifyLink (s : Session) (l : LinkKey) (f : Link → Link) : Session :=
  { s with links := s.links.modify l.index f }

/-- Adds text below an instance's name. -/
def annotate (s : Session) (i : InstanceKey) (text : String) : Session :=
  s.modifyInstance i fun inst => { inst with notes := inst.notes ++ text }

/-- Lets an instance stand for many. -/
def replicateInstance (s : Session) (i : InstanceKey) : Session :=
  s.modifyInstance i fun inst => { inst with multiple := true }

/-- Lets a host stand for many. -/
def replicateHost (s : Session) (h : HostKey) : Session :=
  s.modifyHost h fun host => { host with multiple := true }

/-! ### Declaring elements -/

/-- Takes the next ident of the session's counter. -/
def takeIdent (s : Session) (kind : String) : Ident × Session :=
  ((s.counter.take kind).1, { s with counter := (s.counter.take kind).2 })

def newInstance (s : Session) (name : String) : InstanceKey × Session :=
  let (ident, s) := s.takeIdent "instance"
  (⟨s.instances.size⟩, { s with instances := s.instances.push { ident, name } })

def newHost (s : Session) : HostKey × Session :=
  let (ident, s) := s.takeIdent "host"
  (⟨s.hosts.size⟩, { s with hosts := s.hosts.push { ident } })

def newGroup (s : Session) (name : Option String) : GroupKey × Session :=
  let (ident, s) := s.takeIdent "group"
  (⟨s.groups.size⟩, { s with groups := s.groups.push { ident, name } })

end Session

end Schematic
