import Schematic.Theme

/-! Topology documents: the declarative way to describe an architecture. A document lists groups,
    hosts, instances, processors and systems; entries refer to each other by ids. -/

namespace Schematic

/-- How diagrams are generated. -/
structure Options where
  /-- Write DOT files and let Graphviz make PNG files of them in the background. -/
  native : Bool := false
  /-- Give the rows and columns of the grid their titles. -/
  header : Bool := false
  /-- Collect the images in one table instead of in files. -/
  grid : Bool := false
  outDir : String := "target"
  theme : Option Theme := none
  /-- The Graphviz program that native mode starts. -/
  dotProgram : String := "dot"
  deriving DecidableEq

/-- The theme that was asked for, or else light for a grid and dark for files. -/
def Options.themeInUse (o : Options) : Theme := o.theme.getD (if o.grid then .light else .dark)

structure GroupEntry where
  id : String
  name : Option String := none
  within : Option String := none
  deriving DecidableEq

structure HostEntry where
  id : String
  multiple : Bool := false
  within : Option String := none
  deriving DecidableEq

structure InstanceEntry where
  id : String
  /-- What is written on the instance; its id when absent. -/
  name : Option String := none
  details : Option String := none
  multiple : Bool := false
  within : Option String := none
  on : Option String := none
  deriving DecidableEq

/-- A text for the labels of several instances. -/
structure LabelEntry where
  targets : List String
  text : String
  deriving DecidableEq

structure ProcessorEntry where
  name : String
  details : List LabelEntry := []
  deriving DecidableEq

inductive LinkKind where
  | uses
  | configuration
  | creation
  deriving DecidableEq

/-- A path of instances. The flags go to every link of the path, the label to the last one. -/
structure LinkEntry where
  path : List String
  kind : LinkKind := .uses
  bidirectional : Bool := false
  dynamic : Bool := false
  single : Bool := false
  label : Option String := none
  deriving DecidableEq

structure SystemEntry where
  name : String
  /-- The processors under which the system is drawn; all of them when absent. -/
  only : Option (List String) := none
  links : List LinkEntry := []
  /-- Nodes that are drawn even when no link reaches them. -/
  contains : List String := []
  deriving DecidableEq

structure Document where
  /-- Takes precedence over the theme of the options. -/
  theme : Option Theme := none
  options : Options := {}
  groups : List GroupEntry := []
  hosts : List HostEntry := []
  instances : List InstanceEntry := []
  processors : List ProcessorEntry := []
  systems : List SystemEntry := []
  deriving DecidableEq

/-- The options, with the theme of the document if it has one. -/
def Document.effectiveOptions (d : Document) : Options :=
  match d.theme with
  | none => d.options
  | some theme => { d.options with theme := some theme }

end Schematic
