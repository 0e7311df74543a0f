import Schematic.Document.Records
import Schematic.Document.Validation
import Schematic.Failure
import Schematic.Files.Path

/-! Documents as texts. -/

namespace Schematic

/-- The two ways of writing documents. -/
inductive SourceFormat where
  | json
  | yaml
  deriving DecidableEq

def SourceFormat.name : SourceFormat → String
  | .json => "json"
  | .yaml => "yaml"

/-- YAML for files named `.yaml` or `.yml`, in any case, and JSON for all others. -/
def SourceFormat.ofPath (path : String) : SourceFormat :=
  match (Path.extension? path).map Text.lower with
  | some "yaml" | some "yml" => .yaml
  | _ => .json

/-- Reads a record of some type from a text. -/
def Codec.read {α : Type} (c : Codec α) (format : SourceFormat) (text : String) :
    Except Failure α :=
  match format with
  | .json =>
    match c.readJson text with
    | .ok x => .ok x
    | .error m => .error (.json m)
  | .yaml =>
    match c.readYaml text with
    | some x => .ok x
    | none => .error .yaml

namespace Document

/-- Writes a document as JSON, with every field. -/
def encode (d : Document) : String := Document.record.codec.writeJson d

/-- Reads a document without checking what its references name. -/
def decode (format : SourceFormat) (text : String) : Except Failure Document :=
  Document.record.codec.read format text

/-- Finds nothing wrong with a document, or the first fault. -/
def check (d : Document) : Except Failure Unit :=
  match d.validate with
  | .ok () => .ok ()
  | .error fault => .error (.document fault)

/-- Reads a document and checks it. -/
def parse (format : SourceFormat) (text : String) : Except Failure Document := do
  let d ← decode format text
  d.check
  pure d

end Document

end Schematic
