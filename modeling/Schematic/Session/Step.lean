import Schematic.Session.Containment
import Schematic.Session.Labels
import Schematic.Session.Links
import Schematic.System

/-! What can happen to a session, step by step, and the sessions that come of it. -/

namespace Schematic

/-- One change of a session. -/
inductive Step where
  | newInstance (name : String)
  | newHost
  | newGroup (name : Option String)
  | newSystem (name : String)
  | setTheme (theme : Theme)
  | annotate (i : InstanceKey) (text : String)
  | replicateInstance (i : InstanceKey)
  | replicateHost (h : HostKey)
  | placeOn (i : InstanceKey) (h : HostKey)
  | placeIn (n : Node) (g : GroupKey)
  | link (source target : InstanceKey)
  | extend (l : LinkKey) (next : InstanceKey)
  | modify (l : LinkKey) (m : Modifier)

namespace Session

/-- The key names an instance of the session. -/
def HasInstance (s : Session) (i : InstanceKey) : Prop := i.index < s.instances.size

/-- The key names a host of the session. -/
def HasHost (s : Session) (h : HostKey) : Prop := h.index < s.hosts.size

/-- The key names a group of the session. -/
def HasGroup (s : Session) (g : GroupKey) : Prop := g.index < s.groups.size

/-- The key names a link of the session. -/
def HasLink (s : Session) (l : LinkKey) : Prop := l.index < s.links.size

/-- The node is one of the session. -/
def HasNode (s : Session) : Node → Prop
  | .inst i => s.HasInstance i
  | .host h => s.HasHost h
  | .group g => s.HasGroup g

end Session

namespace Step

/-- The step speaks of elements of the session only. -/
def Fits (s : Session) : Step → Prop
  | .annotate i _ | .replicateInstance i => s.HasInstance i
  | .replicateHost h => s.HasHost h
  | .placeOn i h => s.HasInstance i ∧ s.HasHost h
  | .placeIn n g => s.HasNode n ∧ s.HasGroup g
  | .link source target => s.HasInstance source ∧ s.HasInstance target
  | .extend l next => s.HasLink l ∧ s.HasInstance next
  | .modify l _ => s.HasLink l
  | _ => True

/-- The session after the step. -/
def run (s : Session) : Step → Session
  | .newInstance name => (s.newInstance name).2
  | .newHost => s.newHost.2
  | .newGroup name => (s.newGroup name).2
  | .newSystem name => (s.newSystem name).2
  | .setTheme theme => s.setTheme theme
  | .annotate i text => s.annotate i text
  | .replicateInstance i => s.replicateInstance i
  | .replicateHost h => s.replicateHost h
  | .placeOn i h => s.placeOn i h
  | .placeIn n g => s.placeIn n g
  | .link source target => (s.newLink source target none).2
  | .extend l next => (s.extend l next).2
  | .modify l m => s.modify l m

end Step

/-- The sessions that steps lead to, each step speaking of elements that are there. -/
inductive Session.Reachable : Session → Prop where
  | fresh (theme : Theme) : Reachable (Session.fresh theme)
  | step {s : Session} (t : Step) : Reachable s → t.Fits s → Reachable (t.run s)

end Schematic
