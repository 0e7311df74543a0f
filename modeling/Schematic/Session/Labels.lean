import Schematic.Session.Basic

/-! Labelling passes: one text under the names of several instances, label after label. -/

namespace Schematic

/-- A text and the instances it belongs under; an instance may be listed more than once. -/
structure Label where
  targets : List InstanceKey
  text : String

namespace Session

/-- Adds the text of a label below each of its targets. -/
def applyLabel (s : Session) (l : Label) : Session :=
  l.targets.foldl (fun s i => s.annotate i l.text) s

/-- Adds the texts of all labels, in order. -/
def applyLabels (s : Session) (ls : List Label) : Session := ls.foldl applyLabel s

end Session

end Schematic
