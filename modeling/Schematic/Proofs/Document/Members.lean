import Schematic.Document.Records
import Schematic.Proofs.Codec.Routes

/-! No member of a JSON document is overlooked, however deep it stands. For every record type of
    documents there is a table of what its members mean; wherever an object is read as such a record,
    its members tell all about the record, their order does not matter, and one member more of an
    unknown name or of a name that is there already makes the whole document unreadable. -/

namespace Schematic

open Json Codec

/-! ### What stands for nothing -/

namespace Codec

@[simp] theorem text_null (expected : String) :
    (text expected).ofJson .null = .error (.ofValue expected .null) := rfl

@[simp] theorem string_null : string.ofJson .null = .error (.ofValue "a string" .null) := rfl

@[simp] theorem flag_null : flag.ofJson .null = .error (.ofValue "a boolean" .null) := rfl

@[simp] theorem choice_null {α : Type} (options : List (String × α)) (name : α → String) :
    (choice options name).ofJson .null = .error .unreadable := rfl

@[simp] theorem optional_null {α : Type} (c : Codec α) : (optional c).ofJson .null = .ok none := rfl

@[simp] theorem listOf_null {α : Type} (c : Codec α) :
    (listOf c).ofJson .null = .error (.ofValue "a sequence" .null) := rfl

@[simp] theorem record_null {ρ : Type} (t : RecordType ρ) :
    t.codec.ofJson .null = .error (.ofValue ("struct " ++ t.name) .null) := rfl

end Codec

/-! ### The record types -/

namespace Options

def rows : List (Row Options) :=
  [⟨"native", flag, (·.native), some false⟩,
   ⟨"header", flag, (·.header), some false⟩,
   ⟨"grid", flag, (·.grid), some false⟩,
   ⟨"out_dir", text "path string", (·.outDir), some "target"⟩,
   ⟨"theme", optional Theme.codec, (·.theme), some none⟩,
   ⟨"dot_program", string, (·.dotProgram), some "dot"⟩]

theorem described : record.Described rows where
  shown := by simp [record, rows]
  spares := by simp [record, rows]
  nodup := by decide
  blank := by simp [record, rows]
  ext := by
    rintro ⟨⟩ ⟨⟩ h
    simpa [rows] using h
  null := by simp [rows]

end Options

namespace GroupEntry

def rows : List (Row GroupEntry) :=
  [⟨"id", string, (·.id), none⟩,
   ⟨"name", optional string, (·.name), some none⟩,
   ⟨"within", optional string, (·.within), some none⟩]

theorem described : record.Described rows where
  shown := by simp [record, rows]
  spares := by simp [record, rows]
  nodup := by decide
  blank := by simp [record, rows]
  ext := by
    rintro ⟨⟩ ⟨⟩ h
    simpa [rows] using h
  null := by simp [rows]

end GroupEntry

namespace HostEntry

def rows : List (Row HostEntry) :=
  [⟨"id", string, (·.id), none⟩,
   ⟨"multiple", flag, (·.multiple), some false⟩,
   ⟨"within", optional string, (·.within), some none⟩]

theorem described : record.Described rows where
  shown := by simp [record, rows]
  spares := by simp [record, rows]
  nodup := by decide
  blank := by simp [record, rows]
  ext := by
    rintro ⟨⟩ ⟨⟩ h
    simpa [rows] using h
  null := by simp [rows]

end HostEntry

namespace InstanceEntry

def rows : List (Row InstanceEntry) :=
  [⟨"id", string, (·.id), none⟩,
   ⟨"name", optional string, (·.name), some none⟩,
   ⟨"details", optional string, (·.details), some none⟩,
   ⟨"multiple", flag, (·.multiple), some false⟩,
   ⟨"within", optional string, (·.within), some none⟩,
   ⟨"on", optional string, (·.on), some none⟩]

theorem described : record.Described rows where
  shown := by simp [record, rows]
  spares := by simp [record, rows]
  nodup := by decide
  blank := by simp [record, rows]
  ext := by
    rintro ⟨⟩ ⟨⟩ h
    simpa [rows] using h
  null := by simp [rows]

end InstanceEntry

namespace LabelEntry

def rows : List (Row LabelEntry) :=
  [⟨"targets", listOf string, (·.targets), none⟩,
   ⟨"text", string, (·.text), none⟩]

theorem described : record.Described rows where
  shown := by simp [record, rows]
  spares := by simp [record, rows]
  nodup := by decide
  blank := by simp [rows]
  ext := by
    rintro ⟨⟩ ⟨⟩ h
    simpa [rows] using h
  null := by simp [rows]

end LabelEntry

namespace ProcessorEntry

def rows : List (Row ProcessorEntry) :=
  [⟨"name", string, (·.name), none⟩,
   ⟨"details", listOf LabelEntry.record.codec, (·.details), some []⟩]

theorem described : record.Described rows where
  shown := by simp [record, rows]
  spares := by simp [record, rows]
  nodup := by decide
  blank := by simp [record, rows]
  ext := by
    rintro ⟨⟩ ⟨⟩ h
    simpa [rows] using h
  null := by simp [rows]

end ProcessorEntry

namespace LinkEntry

def rows : List (Row LinkEntry) :=
  [⟨"path", listOf string, (·.path), none⟩,
   ⟨"kind", LinkKind.codec, (·.kind), some .uses⟩,
   ⟨"bidirectional", flag, (·.bidirectional), some false⟩,
   ⟨"dynamic", flag, (·.dynamic), some false⟩,
   ⟨"single", flag, (·.single), some false⟩,
   ⟨"label", optional string, (·.label), some none⟩]

theorem described : record.Described rows where
  shown := by simp [record, rows]
  spares := by simp [record, rows]
  nodup := by decide
  blank := by simp [record, rows]
  ext := by
    rintro ⟨⟩ ⟨⟩ h
    simpa [rows] using h
  null := by simp [rows, LinkKind.codec]

end LinkEntry

namespace SystemEntry

def rows : List (Row SystemEntry) :=
  [⟨"name", string, (·.name), none⟩,
   ⟨"only", optional (listOf string), (·.only), some none⟩,
   ⟨"links", listOf LinkEntry.record.codec, (·.links), some []⟩,
   ⟨"contains", listOf string, (·.contains), some []⟩]

theorem described : record.Described rows where
  shown := by simp [record, rows]
  spares := by simp [record, rows]
  nodup := by decide
  blank := by simp [record, rows]
  ext := by
    rintro ⟨⟩ ⟨⟩ h
    simpa [rows] using h
  null := by simp [rows]

end SystemEntry

namespace Document

def rows : List (Row Document) :=
  [⟨"theme", optional Theme.codec, (·.theme), some none⟩,
   ⟨"options", Options.record.codec, (·.options), some {}⟩,
   ⟨"groups", listOf GroupEntry.record.codec, (·.groups), some []⟩,
   ⟨"hosts", listOf HostEntry.record.codec, (·.hosts), some []⟩,
   ⟨"instances", listOf InstanceEntry.record.codec, (·.instances), some []⟩,
   ⟨"processors", listOf ProcessorEntry.record.codec, (·.processors), some []⟩,
   ⟨"systems", listOf SystemEntry.record.codec, (·.systems), some []⟩]

theorem described : record.Described rows where
  shown := by simp [record, rows]
  spares := by simp [record, rows]
  nodup := by decide
  blank := by simp [record, rows]
  ext := by
    rintro ⟨⟩ ⟨⟩ h
    simpa [rows] using h
  null := by simp [rows]

/-! ### Sites -/

/-- Where a record stands in a document. -/
inductive Site where
  | document
  | options
  | group (i : ℕ)
  | host (i : ℕ)
  | inst (i : ℕ)
  | processor (i : ℕ)
  | label (i j : ℕ)
  | system (i : ℕ)
  | link (i j : ℕ)

namespace Site

def Entry : Site → Type
  | document => Document
  | options => Options
  | group _ => GroupEntry
  | host _ => HostEntry
  | inst _ => InstanceEntry
  | processor _ => ProcessorEntry
  | label _ _ => LabelEntry
  | system _ => SystemEntry
  | link _ _ => LinkEntry

def type : (σ : Site) → RecordType σ.Entry
  | document => Document.record
  | options => Options.record
  | group _ => GroupEntry.record
  | host _ => HostEntry.record
  | inst _ => InstanceEntry.record
  | processor _ => ProcessorEntry.record
  | label _ _ => LabelEntry.record
  | system _ => SystemEntry.record
  | link _ _ => LinkEntry.record

def rows : (σ : Site) → List (Row σ.Entry)
  | document => Document.rows
  | options => Options.rows
  | group _ => GroupEntry.rows
  | host _ => HostEntry.rows
  | inst _ => InstanceEntry.rows
  | processor _ => ProcessorEntry.rows
  | label _ _ => LabelEntry.rows
  | system _ => SystemEntry.rows
  | link _ _ => LinkEntry.rows

/-- The names of the fields that a record at the site has. -/
def names (σ : Site) : List String := σ.rows.map (·.name)

/-- What stands at the site. -/
def entry? : (σ : Site) → Document → Option σ.Entry
  | document, d => some d
  | options, d => some d.options
  | group i, d => d.groups[i]?
  | host i, d => d.hosts[i]?
  | inst i, d => d.instances[i]?
  | processor i, d => d.processors[i]?
  | label i j, d => d.processors[i]? >>= fun p => p.details[j]?
  | system i, d => d.systems[i]?
  | link i j, d => d.systems[i]? >>= fun s => s.links[j]?

/-- The way to the site in a JSON value. -/
def route : Site → Route
  | document => []
  | options => [.field "options" 1]
  | group i => [.field "groups" 2, .item i]
  | host i => [.field "hosts" 3, .item i]
  | inst i => [.field "instances" 4, .item i]
  | processor i => [.field "processors" 5, .item i]
  | label i j => [.field "processors" 5, .item i, .field "details" 1, .item j]
  | system i => [.field "systems" 6, .item i]
  | link i j => [.field "systems" 6, .item i, .field "links" 2, .item j]

theorem described : (σ : Site) → σ.type.Described σ.rows
  | document => Document.described
  | options => Options.described
  | group _ => GroupEntry.described
  | host _ => HostEntry.described
  | inst _ => InstanceEntry.described
  | processor _ => ProcessorEntry.described
  | label _ _ => LabelEntry.described
  | system _ => SystemEntry.described
  | link _ _ => LinkEntry.described

/-- What is read at a site is what stands there in the document. -/
theorem focus : (σ : Site) → Document.record.codec.Focus σ.route σ.type.codec σ.entry?
  | document => .here
  | options => Document.described.focus_field rfl
  | group i => Document.described.focus_entry rfl i
  | host i => Document.described.focus_entry rfl i
  | inst i => Document.described.focus_entry rfl i
  | processor i => Document.described.focus_entry rfl i
  | label i j => (Document.described.focus_entry (n := 5) rfl i).append
      (ProcessorEntry.described.focus_entry (n := 1) rfl j)
  | system i => Document.described.focus_entry rfl i
  | link i j => (Document.described.focus_entry (n := 6) rfl i).append
      (SystemEntry.described.focus_entry (n := 2) rfl j)

/-- What is read from a JSON value once there are other members at the site. -/
def readWith (σ : Site) (ms : List (String × Value)) (v : Value) : Except Misfit Document :=
  Document.record.ofJson (σ.route.put (.record ms .closed) v)

/-- A document is read from a JSON value, and none of the members at the site is overlooked. -/
structure Minds (σ : Site) (v : Value) (ms : List (String × Value)) (ending : Ending Value)
    (d : Document) : Prop where
  closed : ending = .closed
  tells : ∃ x, σ.entry? d = some x ∧ Tells σ.rows ms x
  reordered : ∀ ms' : List (String × Value), ms'.Perm ms → σ.readWith ms' v = .ok d
  unknown : ∀ before after name w, ms = before ++ after → name ∉ σ.names →
    σ.readWith (before ++ (name, w) :: after) v = .error (.unknownField name σ.names)
  repeated : ∀ before after name w, ms = before ++ after → name ∈ ms.map (·.1) →
    ∃ misfit, σ.readWith (before ++ (name, w) :: after) v = .error misfit

end Site

end Document

end Schematic
