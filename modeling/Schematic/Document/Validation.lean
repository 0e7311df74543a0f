import Schematic.Document.Basic

/-! What makes a document well formed: ids are there and differ, and every reference names an entry
    of the right kind. The first fault, in a fixed order, is the one that is reported. -/

namespace Schematic

/-- The three kinds of entries that have ids. -/
inductive EntryKind where
  | group
  | host
  | inst
  deriving DecidableEq

def EntryKind.text : EntryKind → String
  | .group => "group"
  | .host => "host"
  | .inst => "instance"

/-- The entry in which a reference stands. -/
inductive Place where
  | entry (kind : EntryKind) (id : String)
  | processor (name : String)
  | system (name : String)
  deriving DecidableEq

/-- A name between backquotes. -/
def ticked (s : String) : String := "\x60" ++ s ++ "\x60"

def Place.text : Place → String
  | .entry kind id => kind.text ++ " " ++ ticked id
  | .processor name => "processor " ++ ticked name
  | .system name => "system " ++ ticked name

/-- What can be wrong with a document. -/
inductive Fault where
  | emptyId (kind : EntryKind)
  | duplicateId (id : String)
  | wrongKind (id : String) (found expected : EntryKind) (place : Place)
  | unknownId (id : String) (expected : EntryKind) (place : Place)
  | shortPath (system : String)
  | unknownNode (id : String) (place : Place)
  deriving DecidableEq

def Fault.message : Fault → String
  | .emptyId kind => kind.text ++ " with an empty id"
  | .duplicateId id => "duplicate id " ++ ticked id
  | .wrongKind id found expected place =>
    ticked id ++ " is a " ++ found.text ++ ", expected a " ++ expected.text ++ " (" ++ place.text
      ++ ")"
  | .unknownId id expected place =>
    "unknown " ++ expected.text ++ " " ++ ticked id ++ " (" ++ place.text ++ ")"
  | .shortPath system =>
    Place.text (.system system) ++ " has a link path with fewer than two instances"
  | .unknownNode id place => "unknown node " ++ ticked id ++ " (" ++ place.text ++ ")"

namespace Document

/-- All ids with the kinds of their entries, in document order. -/
def ids (d : Document) : List (String × EntryKind) :=
  d.groups.map (fun g => (g.id, .group)) ++ d.hosts.map (fun h => (h.id, .host))
    ++ d.instances.map (fun i => (i.id, .inst))

/-- Checks that no id is empty and none stands twice; `seen` are the ids before these. -/
def checkIds (seen : List String) : List (String × EntryKind) → Except Fault Unit
  | [] => .ok ()
  | (id, kind) :: rest =>
    if id = "" then .error (.emptyId kind)
    else if id ∈ seen then .error (.duplicateId id)
    else checkIds (id :: seen) rest

/-- Checks that an id is that of an entry of some kind. -/
def require (ids : List (String × EntryKind)) (expected : EntryKind) (place : Place) (id : String) :
    Except Fault Unit :=
  match ids.lookup id with
  | some found => if found = expected then .ok () else .error (.wrongKind id found expected place)
  | none => .error (.unknownId id expected place)

/-- Checks an id that may be absent. -/
def requireIfAny (ids : List (String × EntryKind)) (expected : EntryKind) (place : Place) :
    Option String → Except Fault Unit
  | none => .ok ()
  | some id => require ids expected place id

/-- Checks entries in order, up to the first fault. -/
def checkEach {α : Type} (check : α → Except Fault Unit) : List α → Except Fault Unit
  | [] => .ok ()
  | x :: xs => do check x; checkEach check xs

def checkGroup (ids : List (String × EntryKind)) (g : GroupEntry) : Except Fault Unit :=
  requireIfAny ids .group (.entry .group g.id) g.within

def checkHost (ids : List (String × EntryKind)) (h : HostEntry) : Except Fault Unit :=
  requireIfAny ids .group (.entry .host h.id) h.within

def checkInstance (ids : List (String × EntryKind)) (i : InstanceEntry) : Except Fault Unit := do
  requireIfAny ids .group (.entry .inst i.id) i.within
  requireIfAny ids .host (.entry .inst i.id) i.on

def checkProcessor (ids : List (String × EntryKind)) (p : ProcessorEntry) : Except Fault Unit :=
  checkEach (fun l => checkEach (require ids .inst (.processor p.name)) l.targets) p.details

def checkLink (ids : List (String × EntryKind)) (system : String) (l : LinkEntry) :
    Except Fault Unit := do
  if l.path.length < 2 then throw (.shortPath system)
  checkEach (require ids .inst (.system system)) l.path

/-- Checks that an id is that of an entry of any kind. -/
def checkNode (ids : List (String × EntryKind)) (system id : String) : Except Fault Unit :=
  if (ids.lookup id).isSome then .ok () else .error (.unknownNode id (.system system))

def checkSystem (ids : List (String × EntryKind)) (s : SystemEntry) : Except Fault Unit := do
  checkEach (checkLink ids s.name) s.links
  checkEach (checkNode ids s.name) s.contains

/-- The first fault of a document, if it has one. Processors that a system is restricted to need not
    be declared. -/
def validate (d : Document) : Except Fault Unit := do
  checkIds [] d.ids
  checkEach (checkGroup d.ids) d.groups
  checkEach (checkHost d.ids) d.hosts
  checkEach (checkInstance d.ids) d.instances
  checkEach (checkProcessor d.ids) d.processors
  checkEach (checkSystem d.ids) d.systems

end Document

end Schematic
