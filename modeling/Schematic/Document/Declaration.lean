import Schematic.Document.Basic
import Schematic.Dot.Writer
import Schematic.Session.Containment
import Schematic.Session.Labels
import Schematic.Session.Links
import Schematic.System

/-! Declaring a document in a session. All elements come first, in document order, then what is
    inside what, then the links of every system. A reference that names nothing is skipped, and a
    path with such a reference is left out as a whole. -/

namespace Schematic

/-- What the ids of a declared document stand for. -/
structure Declared where
  /-- The nodes by id. Of two entries with one id the later one counts. -/
  nodes : List (String × Node) := []
  /-- For every system, the first link of each of its paths. -/
  systems : List (List LinkKey) := []

namespace Declared

def empty : Declared := {}

def add (d : Declared) (id : String) (n : Node) : Declared := { d with nodes := (id, n) :: d.nodes }

def node? (d : Declared) (id : String) : Option Node := d.nodes.lookup id

def instance? (d : Declared) (id : String) : Option InstanceKey :=
  match d.node? id with
  | some (.inst i) => some i
  | _ => none

def host? (d : Declared) (id : String) : Option HostKey :=
  match d.node? id with
  | some (.host h) => some h
  | _ => none

def group? (d : Declared) (id : String) : Option GroupKey :=
  match d.node? id with
  | some (.group g) => some g
  | _ => none

/-- The first link of each path of the system at `index`. -/
def systemLinks (d : Declared) (index : Nat) : List LinkKey := d.systems[index]?.getD []

/-- The instances among some ids. -/
def instances (d : Declared) (ids : List String) : List InstanceKey := ids.filterMap d.instance?

/-- The instances that a path runs through, if every id of it names one. -/
def path? (d : Declared) : List String → Option (List InstanceKey)
  | [] => some []
  | id :: ids =>
    match d.instance? id, d.path? ids with
    | some i, some is => some (i :: is)
    | _, _ => none

end Declared

/-- A session together with what has been declared in it so far. -/
structure Draft where
  session : Session
  declared : Declared := {}

namespace Draft

/-! ### Elements -/

def addGroup (d : Draft) (g : GroupEntry) : Draft :=
  let (key, s) := d.session.newGroup g.name
  ⟨s, d.declared.add g.id (.group key)⟩

def addHost (d : Draft) (h : HostEntry) : Draft :=
  let (key, s) := d.session.newHost
  ⟨if h.multiple then s.replicateHost key else s, d.declared.add h.id (.host key)⟩

def addInstance (d : Draft) (i : InstanceEntry) : Draft :=
  let (key, s) := d.session.newInstance (i.name.getD i.id)
  let s := match i.details with
    | some text => s.annotate key text
    | none => s
  ⟨if i.multiple then s.replicateInstance key else s, d.declared.add i.id (.inst key)⟩

/-! ### Containment -/

/-- Puts the node named `id` into the group named `within`, when both names stand for such. -/
def settle (d : Draft) (node : Option Node) (within : Option String) : Draft :=
  match node, within.bind d.declared.group? with
  | some n, some g => { d with session := d.session.placeIn n g }
  | _, _ => d

def settleGroup (d : Draft) (g : GroupEntry) : Draft :=
  d.settle ((d.declared.group? g.id).map .group) g.within

def settleHost (d : Draft) (h : HostEntry) : Draft :=
  d.settle ((d.declared.host? h.id).map .host) h.within

def settleInstance (d : Draft) (i : InstanceEntry) : Draft :=
  d.settle ((d.declared.instance? i.id).map .inst) i.within

/-- Puts an instance on its host, when both names stand for such. -/
def lodge (d : Draft) (i : InstanceEntry) : Draft :=
  match d.declared.instance? i.id, i.on.bind d.declared.host? with
  | some key, some h => { d with session := d.session.placeOn key h }
  | _, _ => d

end Draft

/-! ### Links -/

/-- The modifiers for every link of a path. -/
def LinkEntry.modifiers (l : LinkEntry) : List Modifier :=
  (match l.kind with
    | .uses => []
    | .configuration => [.configuration]
    | .creation => [.creation])
  ++ (if l.dynamic then [.dynamic] else [])
  ++ (if l.bidirectional then [.bidirectional] else [])
  ++ (if l.single then [.single] else [])

namespace Session

/-- Goes on from link `l` through more instances; each new link gets the modifiers. Gives the last
    link. -/
def extendAll (s : Session) (ms : List Modifier) (l : LinkKey) : List InstanceKey → LinkKey × Session
  | [] => (l, s)
  | next :: rest =>
    let (l, s) := s.extend l next
    (s.modifyAll l ms).extendAll ms l rest

/-- Declares the links of a path and gives the first one; a path needs two instances. -/
def connectPath (s : Session) (entry : LinkEntry) : List InstanceKey → Option LinkKey × Session
  | first :: second :: rest =>
    let (head, s) := s.newLink first second none
    let (last, s) := (s.modifyAll head entry.modifiers).extendAll entry.modifiers head rest
    (some head, match entry.label with
      | some text => s.modify last (.label text)
      | none => s)
  | _ => (none, s)

/-- Declares the links of all paths that resolve, and gives the first link of each. -/
def connectPaths (s : Session) (d : Declared) : List LinkEntry → List LinkKey × Session
  | [] => ([], s)
  | entry :: rest =>
    match d.path? entry.path with
    | none => s.connectPaths d rest
    | some path =>
      let (head, s) := s.connectPath entry path
      let (heads, s) := s.connectPaths d rest
      (head.toList ++ heads, s)

end Session

/-- Declares the links of a system. -/
def Draft.addSystem (d : Draft) (entry : SystemEntry) : Draft :=
  let (heads, s) := d.session.connectPaths d.declared entry.links
  ⟨s, { d.declared with systems := d.declared.systems ++ [heads] }⟩

/-! ### The document -/

namespace Document

/-- Declares every element of a document, what is inside what, and the links of every system. -/
def declare (doc : Document) (s : Session) : Declared × Session :=
  let d : Draft := { session := s }
  let d := doc.groups.foldl Draft.addGroup d
  let d := doc.hosts.foldl Draft.addHost d
  let d := doc.instances.foldl Draft.addInstance d
  let d := doc.groups.foldl Draft.settleGroup d
  let d := doc.hosts.foldl Draft.settleHost d
  let d := doc.instances.foldl Draft.settleInstance d
  let d := doc.instances.foldl Draft.lodge d
  let d := doc.systems.foldl Draft.addSystem d
  (d.declared, d.session)

end Document

/-- Makes the system at `index` of a declared document: its links, the nodes it contains, and the
    processors it is restricted to. -/
def SystemEntry.select (entry : SystemEntry) (s : Session) (d : Declared) (index : Nat) :
    System × Session :=
  let (sys, s) := s.newSystem entry.name
  let sys := (sys.is s (d.systemLinks index)).contains s (entry.contains.filterMap d.node?)
  (match entry.only with
    | some processors => sys.restrict processors
    | none => sys, s)

/-- What a processor adds to the labels of a declared document. -/
def ProcessorEntry.labels (entry : ProcessorEntry) (d : Declared) : List Label :=
  entry.details.map fun l => ⟨d.instances l.targets, l.text⟩

namespace Document

/-- The name and the DOT text of each system from `index` on, in one session. -/
def renderFrom (d : Declared) (index : Nat) (s : Session) : List SystemEntry → List (String × String)
  | [] => []
  | entry :: rest =>
    let (sys, s) := entry.select s d index
    (entry.name, Dot.render s sys) :: renderFrom d (index + 1) s rest

/-- The name and the DOT text of every system, all of them drawn from one session and under no
    processor. -/
def renderDot (doc : Document) : List (String × String) :=
  let (d, s) := doc.declare (.fresh doc.effectiveOptions.themeInUse)
  renderFrom d 0 s doc.systems

end Document

end Schematic
