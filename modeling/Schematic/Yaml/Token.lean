/-! The tokens of YAML. The start and the end of what is set off by indentation are tokens too. -/

namespace Schematic.Yaml

/-- The ways of writing a scalar. -/
inductive Style where
  | plain
  | quoted
  | literal
  | folded
  deriving DecidableEq

inductive Token where
  | streamEnd
  | version (major minor : Nat)
  | tagHandle (handle expansion : String)
  | documentStart
  | documentEnd
  | blockSequence
  | blockMapping
  | blockEnd
  | flowSequence
  | flowSequenceEnd
  | flowMapping
  | flowMappingEnd
  | blockEntry
  | flowEntry
  | key
  | value
  | ref (name : String)
  | anchor (name : String)
  /-- A tag with the handle in front of it; without a handle the tag is complete. -/
  | tag (handle rest : String)
  | scalar (text : String) (style : Style)
  deriving DecidableEq

end Schematic.Yaml
