import Schematic.Session.Basic

/-! The form in which a link is drawn. An edge always runs from the older element to the newer one,
    so that the layout does not hang on which end was declared to be the user. -/

namespace Schematic

inductive Arrow where
  | forward
  | back
  | both
  deriving DecidableEq

inductive Stroke where
  | solid
  | dashed
  | dotted
  deriving DecidableEq

/-- A link as it is drawn. -/
structure Edge where
  /-- The older of the two ends. -/
  tail : InstanceKey
  head : InstanceKey
  /-- The source of the link is `head`. -/
  backwards : Bool
  arrow : Arrow
  stroke : Stroke
  /-- Drawn in the accent colour. -/
  accent : Bool
  /-- Drawn with a double stroke. -/
  striped : Bool

namespace Edge

/-- The source of a link is not older than its target, and it is no link to itself. -/
def turns (s : Session) (l : Link) : Bool :=
  l.source ≠ l.target &&
    match s.identOf? (.inst l.source), s.identOf? (.inst l.target) with
    | some a, some b => !a.before b
    | _, _ => true

/-- The edge that draws link `l`. -/
def ofLink (s : Session) (l : Link) : Edge :=
  let backwards := turns s l
  { tail := if backwards then l.target else l.source
    head := if backwards then l.source else l.target
    backwards
    arrow := if l.bidirectional then .both else if backwards then .back else .forward
    stroke := if l.configuration then .dashed else if l.creation then .dotted else .solid
    accent := l.configuration || l.dynamic
    striped := l.multiple && !l.creation }

end Edge

end Schematic
