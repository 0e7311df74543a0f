import Schematic.Session.Basic

/-! Links and chains. A link that goes on where another one ends belongs to the same chain, so that a
    path drawn link by link stays one thing. -/

namespace Schematic

/-- What can be said about a link after it was declared. -/
inductive Modifier where
  | bidirectional
  | configuration
  | creation
  | dynamic
  | single
  | label (text : String)

namespace Modifier

/-- The modifier of that name; some have two. -/
def ofName? : String → Option Modifier
  | "bidirectional" => some .bidirectional
  | "configuration" => some .configuration
  | "registry" => some .configuration
  | "creation" => some .creation
  | "deploy" => some .creation
  | "dynamic" => some .dynamic
  | "discovered" => some .dynamic
  | "single" => some .single
  | _ => none

/-- What a modifier does to a link; `many` says whether one of its ends now stands for many. -/
def apply (many : Bool) (l : Link) : Modifier → Link
  | .bidirectional => { l with bidirectional := true, multiple := many }
  | .configuration => { l with configuration := true }
  | .creation => { l with creation := true }
  | .dynamic => { l with dynamic := true }
  | .single => { l with multiple := false }
  | .label text => { l with label := some text }

end Modifier

/-- The ways in which one instance can be said to use another. -/
inductive Usage where
  | plain
  | exchange
  | configuration
  | creation

/-- What a way of using says about the link. -/
def Usage.modifiers : Usage → List Modifier
  | .plain => []
  | .exchange => [.bidirectional]
  | .configuration => [.configuration]
  | .creation => [.creation]

namespace Session

/-- Adds a link to a chain; without a chain it begins a new one. The link stands for many when its
    target does at this moment. -/
def newLink (s : Session) (source target : InstanceKey) (chain : Option ChainKey) :
    LinkKey × Session :=
  let key : LinkKey := ⟨s.links.size⟩
  let (chain, chains) := match chain with
    | some c => (c, s.chains.modify c.index (· ++ [key]))
    | none => (⟨s.chains.size⟩, s.chains.push [key])
  let (ident, s) := s.takeIdent "link"
  let link : Link := { ident, source, target, chain, multiple := s.isMany target }
  (key, { s with links := s.links.push link, chains })

/-- One end of the link stands for many. -/
def touchesMany (s : Session) (l : Link) : Bool := s.isMany l.source || s.isMany l.target

/-- Applies a modifier to a link. -/
def modify (s : Session) (l : LinkKey) (m : Modifier) : Session :=
  match s.link? l with
  | none => s
  | some link => s.modifyLink l fun link' => m.apply (s.touchesMany link) link'

/-- Applies modifiers to a link, one after the other. -/
def modifyAll (s : Session) (l : LinkKey) (ms : List Modifier) : Session :=
  ms.foldl (fun s m => s.modify l m) s

/-- Declares that `source` uses `target`. -/
def connect (s : Session) (usage : Usage) (source target : InstanceKey) : LinkKey × Session :=
  let (l, s) := s.newLink source target none
  (l, s.modifyAll l usage.modifiers)

/-- Goes on from the target of link `l` to `next`, in the chain of `l`. -/
def extend (s : Session) (l : LinkKey) (next : InstanceKey) : LinkKey × Session :=
  match s.link? l with
  | none => (l, s)
  | some link => s.newLink link.target next (some link.chain)

end Session

end Schematic
