import Schematic.Codec
import Schematic.Document.Basic

/-! The record types of documents, and how they are written and read. -/

namespace Schematic

open Codec

def Theme.codec : Codec Theme := choice [("dark", .dark), ("light", .light)] Theme.name

def LinkKind.name : LinkKind → String
  | .uses => "uses"
  | .configuration => "configuration"
  | .creation => "creation"

def LinkKind.codec : Codec LinkKind :=
  choice [("uses", .uses), ("configuration", .configuration), ("creation", .creation)] LinkKind.name

def Options.record : RecordType Options where
  name := "GenerateOptions"
  blank := {}
  fields :=
    [.of "native" false flag (·.native) fun v o => { o with native := v },
     .of "header" false flag (·.header) fun v o => { o with header := v },
     .of "grid" false flag (·.grid) fun v o => { o with grid := v },
     .of "out_dir" false (text "path string") (·.outDir) fun v o => { o with outDir := v },
     .of "theme" false (optional Theme.codec) (·.theme) fun v o => { o with theme := v },
     .of "dot_program" false string (·.dotProgram) fun v o => { o with dotProgram := v }]

def GroupEntry.record : RecordType GroupEntry where
  name := "GroupSpec"
  blank := { id := "" }
  fields :=
    [.of "id" true string (·.id) fun v g => { g with id := v },
     .of "name" false (optional string) (·.name) fun v g => { g with name := v },
     .of "within" false (optional string) (·.within) fun v g => { g with within := v }]

def HostEntry.record : RecordType HostEntry where
  name := "HostSpec"
  blank := { id := "" }
  fields :=
    [.of "id" true string (·.id) fun v h => { h with id := v },
     .of "multiple" false flag (·.multiple) fun v h => { h with multiple := v },
     .of "within" false (optional string) (·.within) fun v h => { h with within := v }]

def InstanceEntry.record : RecordType InstanceEntry where
  name := "InstanceSpec"
  blank := { id := "" }
  fields :=
    [.of "id" true string (·.id) fun v i => { i with id := v },
     .of "name" false (optional string) (·.name) fun v i => { i with name := v },
     .of "details" false (optional string) (·.details) fun v i => { i with details := v },
     .of "multiple" false flag (·.multiple) fun v i => { i with multiple := v },
     .of "within" false (optional string) (·.within) fun v i => { i with within := v },
     .of "on" false (optional string) (·.on) fun v i => { i with on := v }]

def LabelEntry.record : RecordType LabelEntry where
  name := "LabelSpec"
  blank := { targets := [], text := "" }
  fields :=
    [.of "targets" true (listOf string) (·.targets) fun v l => { l with targets := v },
     .of "text" true string (·.text) fun v l => { l with text := v }]

def ProcessorEntry.record : RecordType ProcessorEntry where
  name := "ProcessorSpec"
  blank := { name := "" }
  fields :=
    [.of "name" true string (·.name) fun v p => { p with name := v },
     .of "details" false (listOf LabelEntry.record.codec) (·.details)
       fun v p => { p with details := v }]

def LinkEntry.record : RecordType LinkEntry where
  name := "LinkSpec"
  blank := { path := [] }
  fields :=
    [.of "path" true (listOf string) (·.path) fun v l => { l with path := v },
     .of "kind" false LinkKind.codec (·.kind) fun v l => { l with kind := v },
     .of "bidirectional" false flag (·.bidirectional) fun v l => { l with bidirectional := v },
     .of "dynamic" false flag (·.dynamic) fun v l => { l with dynamic := v },
     .of "single" false flag (·.single) fun v l => { l with single := v },
     .of "label" false (optional string) (·.label) fun v l => { l with label := v }]

def SystemEntry.record : RecordType SystemEntry where
  name := "SystemSpec"
  blank := { name := "" }
  fields :=
    [.of "name" true string (·.name) fun v s => { s with name := v },
     .of "only" false (optional (listOf string)) (·.only) fun v s => { s with only := v },
     .of "links" false (listOf LinkEntry.record.codec) (·.links) fun v s => { s with links := v },
     .of "contains" false (listOf string) (·.contains) fun v s => { s with contains := v }]

def Document.record : RecordType Document where
  name := "Document"
  blank := {}
  fields :=
    [.of "theme" false (optional Theme.codec) (·.theme) fun v d => { d with theme := v },
     .of "options" false Options.record.codec (·.options) fun v d => { d with options := v },
     .of "groups" false (listOf GroupEntry.record.codec) (·.groups) fun v d => { d with groups := v },
     .of "hosts" false (listOf HostEntry.record.codec) (·.hosts) fun v d => { d with hosts := v },
     .of "instances" false (listOf InstanceEntry.record.codec) (·.instances)
       fun v d => { d with instances := v },
     .of "processors" false (listOf ProcessorEntry.record.codec) (·.processors)
       fun v d => { d with processors := v },
     .of "systems" false (listOf SystemEntry.record.codec) (·.systems)
       fun v d => { d with systems := v }]

end Schematic
