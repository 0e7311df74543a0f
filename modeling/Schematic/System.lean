import Schematic.Session.Containment

/-! A system is one diagram drawn from a session: links, and the outermost nodes that have to be
    drawn so that every link has both its ends. Nodes and links are kept in order of registration,
    each once. -/

namespace Schematic

/-- Adds `x` at the end of a list that does not have it yet. -/
def insertLast {α : Type} [DecidableEq α] (xs : List α) (x : α) : List α :=
  if x ∈ xs then xs else xs ++ [x]

structure System where
  ident : Ident
  name : String
  /-- The outermost nodes to draw. -/
  nodes : List Node := []
  links : List LinkKey := []
  /-- The names of the processors under which the system is drawn, when it is not all of them. -/
  only : Option (List String) := none

/-- A new system. It takes a number of the session's counter. -/
def Session.newSystem (s : Session) (name : String) : System × Session :=
  let (ident, s) := s.takeIdent "system"
  ({ ident, name }, s)

namespace System

/-- Registers the outermost container of a node. -/
def register (sys : System) (s : Session) (n : Node) : System :=
  { sys with nodes := insertLast sys.nodes (s.outermost n) }

/-- Registers a link with both its ends. -/
def addLink (sys : System) (s : Session) (l : LinkKey) : System :=
  match s.link? l with
  | none => sys
  | some link =>
    let sys := (sys.register s (.inst link.source)).register s (.inst link.target)
    { sys with links := insertLast sys.links l }

/-- Registers all links of the chain of a link. -/
def addChain (sys : System) (s : Session) (l : LinkKey) : System :=
  match s.link? l with
  | none => sys
  | some link => (s.chain link.chain).foldl (fun sys l => sys.addLink s l) sys

/-- Registers the chains of all the links given. -/
def is (sys : System) (s : Session) (ls : List LinkKey) : System :=
  ls.foldl (fun sys l => sys.addChain s l) sys

/-- Registers nodes that are drawn even without links. -/
def contains (sys : System) (s : Session) (ns : List Node) : System :=
  ns.foldl (fun sys n => sys.register s n) sys

/-- Draws the system under the named processors only. -/
def restrict (sys : System) (processors : List String) : System := { sys with only := some processors }

def rename (sys : System) (name : String) : System := { sys with name }

/-- The system is drawn under `processor`, where `none` is the processor that changes nothing. -/
def rendersUnder (sys : System) (processor : Option String) : Bool :=
  match sys.only, processor with
  | none, _ => true
  | some allowed, some name => allowed.contains name
  | some _, none => false

end System

end Schematic
