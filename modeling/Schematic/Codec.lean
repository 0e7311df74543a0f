import Schematic.Json.Reader
import Schematic.Json.Writer
import Schematic.Yaml.Node

/-! How records are written as JSON and read from JSON and from YAML. A codec says it for one type;
    the codec of a record type is put together from those of its fields.

    In JSON a record is an object with one member for each field, or a list of the fields in order.
    Nothing is passed over: a member that is no field, or comes twice, is an error, and so is a
    missing field without a default. What is wrong is told in the order of the text. In YAML a
    record is a mapping, and it is only told whether it can be read. -/

namespace Schematic

/-- Why a JSON text is not what was expected. -/
inductive Misfit where
  /-- The text is not JSON. -/
  | unreadable
  | unknownField (name : String) (known : List String)
  | duplicateField (name : String)
  | missingField (name : String)
  | unknownVariant (name : String) (known : List String)
  | wrongType (found expected : String)
  | wrongLength (length : Nat) (expected : String)
  deriving DecidableEq

namespace Misfit

/-- Names to choose from, as they stand in a message. -/
def choices (names : List String) : String :=
  let shown := names.map fun n => "\x60" ++ n ++ "\x60"
  match shown with
  | [a, b] => a ++ " or " ++ b
  | [a] => a
  | _ => "one of " ++ ", ".intercalate shown

/-- The message; there is none for a text that is not JSON. -/
def message? : Misfit → Option String
  | .unreadable => none
  | .unknownField name known =>
    some ("unknown field \x60" ++ name ++ "\x60, expected " ++ choices known)
  | .duplicateField name => some ("duplicate field \x60" ++ name ++ "\x60")
  | .missingField name => some ("missing field \x60" ++ name ++ "\x60")
  | .unknownVariant name known =>
    some ("unknown variant \x60" ++ name ++ "\x60, expected " ++ choices known)
  | .wrongType found expected => some ("invalid type: " ++ found ++ ", expected " ++ expected)
  | .wrongLength length expected =>
    some ("invalid length " ++ toString length ++ ", expected " ++ expected)

/-- A value of another type than the expected one. -/
def ofValue (expected : String) (v : Json.Value) : Misfit :=
  match v.shown? with
  | some found => .wrongType found expected
  | none => .unreadable

end Misfit

/-- How values of a type are written and read. -/
structure Codec (α : Type) where
  toJson : α → Json.Value
  ofJson : Json.Value → Except Misfit α
  ofYaml : Yaml.Anchors → Yaml.Node → Option α

namespace Codec

/-! ### Scalars -/

/-- Texts; `expected` is what messages call them. -/
def text (expected : String) : Codec String where
  toJson := .text
  ofJson
    | .text s => .ok s
    | v => .error (.ofValue expected v)
  ofYaml a n :=
    match a.resolve n with
    | some (.scalar s _ _) => some s
    | _ => none

/-- Texts that are nothing more than texts. -/
def string : Codec String := text "a string"

/-- The truth values of YAML. -/
def truth? : String → Option Bool
  | "true" | "True" | "TRUE" => some true
  | "false" | "False" | "FALSE" => some false
  | _ => none

def flag : Codec Bool where
  toJson := .bool
  ofJson
    | .bool b => .ok b
    | v => .error (.ofValue "a boolean" v)
  ofYaml a n :=
    match a.resolve n with
    | some (.scalar s .plain _) => truth? s
    | some (.scalar s .literal (some "tag:yaml.org,2002:bool")) => truth? s
    | _ => none

/-- The words that stand for nothing in YAML. -/
def isNullWord (s : String) : Bool := s = "null" || s = "Null" || s = "NULL" || s = "~"

/-! ### Choices -/

/-- The name in a tag that is no global one. -/
def localName? (tag : Option String) : Option String :=
  match tag.map String.toList with
  | some ('!' :: name) => some (String.ofList name)
  | _ => none

/-- One of several names. In JSON a name may also be the key of an object with the one value null; in
    YAML it may also be a tag, with nothing behind it. -/
def choice {α : Type} (options : List (String × α)) (name : α → String) : Codec α where
  toJson x := .text (name x)
  ofJson v :=
    let named (s : String) : Except Misfit α :=
      match options.lookup s with
      | some x => .ok x
      | none => .error (.unknownVariant s (options.map (·.1)))
    match v with
    | .text s => named s
    | .record ((key, v) :: rest) ending => do
      let x ← named key
      match v, rest, ending with
      | .null, [], .closed => pure x
      | .null, _, _ => throw .unreadable
      | v, _, _ => throw (.ofValue "unit" v)
    | .record [] (.stray v) => .error (.ofValue "variant identifier" v)
    | _ => .error .unreadable
  ofYaml a n :=
    match a.resolve n with
    | some (.scalar s style tag) =>
      match localName? tag with
      | some t => if style = .plain && (s.isEmpty || isNullWord s) then options.lookup t else none
      | none => options.lookup s
    | _ => none

/-! ### Options and lists -/

/-- The YAML node stands for nothing; `none` if it is marked to do so and does not. -/
def isAbsent? : Yaml.Node → Option Bool
  | .void => some true
  | .scalar s .plain none => some (s.isEmpty || isNullWord s)
  | .scalar s .plain (some "tag:yaml.org,2002:null") => if isNullWord s then some true else none
  | _ => some false

/-- A value that may be absent; in JSON, null. -/
def optional {α : Type} (c : Codec α) : Codec (Option α) where
  toJson
    | none => .null
    | some x => c.toJson x
  ofJson
    | .null => .ok none
    | v => some <$> c.ofJson v
  ofYaml a n := do
    let n ← a.resolve n
    if ← isAbsent? n then pure none else some <$> c.ofYaml a n

/-- The YAML node is empty, which may stand for a list or a record without anything in it. -/
def isEmptyNode : Yaml.Node → Bool
  | .void => true
  | .scalar s .plain _ => s.isEmpty
  | _ => false

/-- Values in a row. -/
def listOf {α : Type} (c : Codec α) : Codec (List α) where
  toJson xs := .list (xs.map c.toJson) true
  ofJson
    | .list items closed => do
      let xs ← items.mapM c.ofJson
      if closed then pure xs else throw .unreadable
    | v => .error (.ofValue "a sequence" v)
  ofYaml a n := do
    match ← a.resolve n with
    | .sequence items => items.mapM (c.ofYaml a)
    | n => if isEmptyNode n then pure [] else none

end Codec

/-! ### Records -/

/-- A field of records of type `ρ`. -/
structure Field (ρ : Type) where
  name : String
  /-- There is no default. -/
  required : Bool
  toJson : ρ → Json.Value
  /-- Reads the field and puts it into a record. -/
  ofJson : Json.Value → ρ → Except Misfit ρ
  ofYaml : Yaml.Anchors → Yaml.Node → ρ → Option ρ

/-- The field that `get` and `put` look at, written by a codec. -/
def Field.of {ρ β : Type} (name : String) (required : Bool) (c : Codec β) (get : ρ → β)
    (put : β → ρ → ρ) : Field ρ where
  name
  required
  toJson x := c.toJson (get x)
  ofJson v x := (put · x) <$> c.ofJson v
  ofYaml a n x := (put · x) <$> c.ofYaml a n

/-- A record type: its name in messages, its fields in order, and a record with all defaults. -/
structure RecordType (ρ : Type) where
  name : String
  fields : List (Field ρ)
  blank : ρ

namespace RecordType

variable {ρ : Type}

def fieldNames (t : RecordType ρ) : List String := t.fields.map (·.name)

def field? (t : RecordType ρ) (name : String) : Option (Field ρ) :=
  t.fields.find? fun f => f.name = name

/-- The first required field that is not among those seen. -/
def missing? (t : RecordType ρ) (seen : List String) : Option (Field ρ) :=
  t.fields.find? fun f => f.required && !seen.contains f.name

/-! #### JSON -/

/-- Reads members into a record, in the order of the text; `seen` are the fields before. -/
def readMembers (t : RecordType ρ) (seen : List String) (x : ρ) :
    List (String × Json.Value) → Except Misfit (List String × ρ)
  | [] => .ok (seen, x)
  | (key, v) :: rest =>
    match t.field? key with
    | none => .error (.unknownField key t.fieldNames)
    | some f =>
      if seen.contains key then .error (.duplicateField key)
      else do readMembers t (key :: seen) (← f.ofJson v x) rest

/-- Reads an object. -/
def ofMembers (t : RecordType ρ) (members : List (String × Json.Value))
    (ending : Json.Ending Json.Value) : Except Misfit ρ := do
  let (seen, x) ← t.readMembers [] t.blank members
  match ending with
  | .closed =>
    match t.missing? seen with
    | some f => throw (.missingField f.name)
    | none => pure x
  | _ => throw .unreadable

/-- Reads the items of a list into the fields from number `index` on. -/
def readItems (t : RecordType ρ) (closed : Bool) (index : Nat) (x : ρ) :
    List (Field ρ) → List Json.Value → Except Misfit ρ
  | f :: fs, v :: vs => do readItems t closed (index + 1) (← f.ofJson v x) fs vs
  | f :: fs, [] =>
    if !closed then .error .unreadable
    else if f.required then
      .error (.wrongLength index
        ("struct " ++ t.name ++ " with " ++ toString t.fields.length ++ " elements"))
    else readItems t closed (index + 1) x fs []
  | [], [] => if closed then .ok x else .error .unreadable
  | [], _ => .error .unreadable

def ofJson (t : RecordType ρ) : Json.Value → Except Misfit ρ
  | .record members ending => t.ofMembers members ending
  | .list items closed => t.readItems closed 0 t.blank t.fields items
  | v => .error (.ofValue ("struct " ++ t.name) v)

/-- Writes a record as an object with every field. -/
def toJson (t : RecordType ρ) (x : ρ) : Json.Value :=
  .record (t.fields.map fun f => (f.name, f.toJson x)) .closed

/-! #### YAML -/

/-- Reads entries into a record; `seen` are the fields before. -/
def readEntries (t : RecordType ρ) (a : Yaml.Anchors) (seen : List String) (x : ρ) :
    List (Yaml.Node × Yaml.Node) → Option (List String × ρ)
  | [] => some (seen, x)
  | (key, n) :: rest =>
    match a.resolve key with
    | some (.scalar key _ _) => do
      let f ← t.field? key
      if seen.contains key then none
      else readEntries t a (key :: seen) (← f.ofYaml a n x) rest
    | _ => none

def ofYaml (t : RecordType ρ) (a : Yaml.Anchors) (n : Yaml.Node) : Option ρ := do
  let entries ← match ← a.resolve n with
    | .mapping entries => some entries
    | n => if Codec.isEmptyNode n then some [] else none
  let (seen, x) ← t.readEntries a [] t.blank entries
  if (t.missing? seen).isSome then none else pure x

/-- The codec of a record type. -/
def codec (t : RecordType ρ) : Codec ρ := ⟨t.toJson, t.ofJson, t.ofYaml⟩

end RecordType

namespace Codec

variable {α : Type}

/-- Writes a whole JSON text. -/
def writeJson (c : Codec α) (x : α) : String := String.ofList (c.toJson x).chars

/-- Reads a whole JSON text. -/
def readJson (c : Codec α) (s : String) : Except Misfit α := do
  let (v, complete) := Json.readText s
  let x ← c.ofJson v
  if complete then pure x else throw .unreadable

/-- Reads a whole YAML text. -/
def readYaml (c : Codec α) (s : String) : Option α := do
  let content ← Yaml.readText s
  c.ofYaml content.anchors content.root

end Codec

end Schematic
