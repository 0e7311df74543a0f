import Schematic.CommandLine
import Schematic.Proofs.Document.RoundTrip
import Schematic.Proofs.Yaml.Tokens

/-! The two ways of reading a document. A JSON text need not be YAML, but a document that was written
    as JSON is read alike both ways if its text has only characters that YAML allows, and no breaks
    in strings; and so is a text whose records have their members in another order or leave some out. -/

namespace Schematic

open Json

namespace Document

/-- The characters of a text stand for themselves in YAML. -/
def KeptByYaml (cs : List Char) : Prop :=
  ∀ y ∈ cs, Yaml.isAllowed y = true ∧ Yaml.isBreak y = false

/-- What JSON reads from the text of a plain value. -/
theorem decode_json_chars {v : Value} (hv : Plain v) {d : Document} :
    decode .json (String.ofList v.chars) = .ok d ↔ Document.record.codec.ofJson v = .ok d := by
  simp only [decode, Codec.read, Codec.readJson, readText_chars hv]
  cases Document.record.codec.ofJson v <;> simp [bind, Except.bind, pure, Except.pure]

/-- What YAML reads from the text of a plain list or record. -/
theorem decode_yaml_chars {v : Value} (hv : Plain v) (hcompound : Yaml.Compound v)
    (hkept : KeptByYaml v.chars) {d : Document} :
    decode .yaml (String.ofList v.chars) = .ok d ↔
      Document.record.codec.ofYaml {} v.node = some d := by
  have hread := Yaml.readText_chars hv hcompound (fun y hy => (hkept y hy).1)
    fun y hy => (hkept y hy).2
  simp only [decode, Codec.read, Codec.readYaml, hread, Option.bind_eq_bind, Option.bind_some]
  cases Document.record.codec.ofYaml {} v.node <;> simp

/-- Both ways of reading never find different documents in the text of a plain value. -/
theorem readers_agree {v : Value} (hv : Plain v) (hkept : KeptByYaml v.chars) {d e : Document}
    (hjson : decode .json (String.ofList v.chars) = .ok d)
    (hyaml : decode .yaml (String.ofList v.chars) = .ok e) : d = e := by
  have hd := (decode_json_chars hv).mp hjson
  have hcompound : Yaml.Compound v := by
    cases hv with
    | list => exact .list ..
    | record => exact .record ..
    | _ => cases hd
  exact codec_lawful.agrees hv hd ((decode_yaml_chars hv hcompound hkept).mp hyaml)

/-- A document that was written as JSON is read back as YAML, too. -/
theorem decode_yaml_encode {d : Document} (hkept : KeptByYaml d.encode.toList) :
    decode .yaml d.encode = .ok d := by
  rw [encode, Codec.writeJson, String.toList_ofList] at hkept
  exact (decode_yaml_chars (codec_lawful.plain d) (.record _ _) hkept).mpr
    (codec_lawful.ofYaml_node {} d)

/-- What JSON reads from an abridged form of a document, YAML reads as well. -/
theorem decode_yaml_abridged {v : Value} {d e : Document} (h : Abridges v (Document.record.toJson d))
    (hkept : KeptByYaml v.chars) (hjson : decode .json (String.ofList v.chars) = .ok e) :
    decode .yaml (String.ofList v.chars) = .ok e := by
  have hv := h.plain (codec_lawful.plain d)
  have hcompound : Yaml.Compound v := by
    cases h with
    | record => exact .record ..
  exact (decode_yaml_chars hv hcompound hkept).mpr
    (codec_lawful.follows hv h ((decode_json_chars hv).mp hjson))

/-- A break in a string does not stand for itself: JSON keeps it, YAML folds it into a space. -/
example :
    let text := "\x7b\"instances\":[\x7b\"id\":\"a\u0085b\"\x7d]\x7d"
    decode .json text = .ok { instances := [{ id := "a\u0085b" }] } ∧
      decode .yaml text = .ok { instances := [{ id := "a b" }] } := by
  decide +kernel

/-- A text with a character that YAML does not allow is refused, whatever JSON makes of it. -/
theorem decode_yaml_of_not_allowed {text : String} {y : Char} (hy : y ∈ text.toList)
    (hallowed : Yaml.isAllowed y = false) : decode .yaml text = .error .yaml := by
  simp only [decode, Codec.read, Codec.readYaml, Yaml.readText_eq_none hy hallowed,
    Option.bind_eq_bind, Option.bind_none]

/-- A JSON text in which a character is escaped as a pair. -/
def paired : String := "\x7b\"instances\":[\x7b\"id\":\"\\ud83d\\ude80\"\x7d]\x7d"

/-- Not every JSON text of a document is YAML. -/
theorem paired_read_apart :
    ¬ ∀ (text : String) (d : Document), parse .json text = .ok d → parse .yaml text = .ok d := by
  intro h
  have hjson : parse .json paired = .ok { instances := [{ id := "🚀" }] } := by decide +kernel
  have hyaml : parse .yaml paired = .error .yaml := by decide +kernel
  have hread := h paired _ hjson
  rw [hyaml] at hread
  cases hread

end Document

open Document

theorem fromUTF8?_toUTF8 (s : String) : String.fromUTF8? s.toUTF8 = some s := by
  have h : s.toUTF8.IsValidUTF8 := s.isValidUTF8
  rw [String.fromUTF8?, dif_pos h]
  rfl

namespace CommandLine

theorem readDocument_stdin (m : Machine) (text : String) :
    readDocument m text.toUTF8 (some "-") =
      (Document.parse .yaml text).mapError .document := by
  simp only [readDocument, fromUTF8?_toUTF8]
  cases Document.parse .yaml text <;> simp [Except.mapError]

theorem readDocument_file (m : Machine) (stdin : ByteArray) {path : String} (hpath : path ≠ "-") :
    readDocument m stdin (some path) =
      (Document.load m path).mapError .document := by
  unfold readDocument
  extract_lets fromStdin
  split
  · next h => cases h
  · next h => exact absurd (Option.some.inj h) hpath
  · next h =>
    rw [← Option.some.inj h]
    cases Document.load m path <;> simp [Except.mapError]

/-- A text of a document that both readers see as the same, so that it may come from the standard input
    as well as from a file. -/
structure ReadAlike (text : String) (d : Document) : Prop where
  json : decode .json text = .ok d
  yaml : decode .yaml text = .ok d
  parsed : Document.parse .yaml text = Document.parse .json text
  read : ∀ (m : Machine) (path : String) (stdin : ByteArray),
    m.files.read m.home path = .ok text.toUTF8 → path ≠ "-" → SourceFormat.ofPath path = .json →
      readDocument m text.toUTF8 (some "-") = readDocument m stdin (some path)

theorem readAlike_of_decode {text : String} {d : Document} (hjson : decode .json text = .ok d)
    (hyaml : decode .yaml text = .ok d) : ReadAlike text d := by
  have hparse : Document.parse .yaml text = Document.parse .json text := by
    simp only [Document.parse, hjson, hyaml]
  refine ⟨hjson, hyaml, hparse, fun m path stdin hfile hpath hformat => ?_⟩
  have htext : m.readText path = .ok text := by
    simp only [Machine.readText, hfile, bind, Except.bind, fromUTF8?_toUTF8]
    rfl
  have hload : Document.load m path = Document.parse .json text := by
    simp only [Document.load, htext, hformat]
  rw [readDocument_stdin, readDocument_file m stdin hpath, hparse, hload]

/-- A document that was written as JSON is the same from the standard input as from a file, wherever
    its text has only characters that stand for themselves in YAML. So is what JSON reads from a text
    that abridges a written one, at any depth. -/
theorem readDocument_encode (d : Document) :
    (KeptByYaml d.encode.toList → ReadAlike d.encode d) ∧
    ∀ v e, Abridges v (Document.record.toJson d) → KeptByYaml v.chars →
      decode .json (String.ofList v.chars) = .ok e → ReadAlike (String.ofList v.chars) e :=
  ⟨fun hkept => readAlike_of_decode (decode_encode d) (decode_yaml_encode hkept),
    fun _ _ h hkept hjson => readAlike_of_decode hjson (decode_yaml_abridged h hkept hjson)⟩

/-- A machine with one file, in the place where work goes on. -/
def machineWith (name : String) (bytes : ByteArray) : Machine where
  files := { entries := [([name], .file bytes false)] }
  home := []
  search := []

def sample : Document := { instances := [{ id := "a", details := some "x y" }] }

/-- The text of `sample` as it is written by hand: what has a default is left out. -/
def handwritten : String := "\x7b\"instances\":[\x7b\"details\":\"x y\",\"id\":\"a\"\x7d]\x7d"

/-- The value in that text. -/
def handwrittenValue : Value :=
  .record [("instances", .list [.record [("details", .text "x y"), ("id", .text "a")] .closed] true)]
    .closed

theorem handwritten_abridges : Abridges handwrittenValue (Document.record.toJson sample) := by
  let entry : InstanceEntry := { id := "a", details := some "x y" }
  have hentry : Abridges (.record [("details", .text "x y"), ("id", .text "a")] .closed)
      (InstanceEntry.record.toJson entry) := by
    refine .record Prod.snd (List.forall_mem_cons.mpr ⟨?_, List.forall_mem_singleton.mpr ?_⟩)
      (List.forall_mem_cons.mpr ⟨.text _, List.forall_mem_singleton.mpr (.text _)⟩)
    · exact .tail _ (.tail _ (.head _))
    · exact .head _
  refine .record (fun _ => .list [InstanceEntry.record.toJson entry] true)
    (List.forall_mem_singleton.mpr ?_) (List.forall_mem_singleton.mpr ?_)
  · exact .tail _ (.tail _ (.tail _ (.tail _ (.head _))))
  · exact .list rfl (List.forall_mem_singleton.mpr hentry)

theorem keptByYaml_of_all {cs : List Char}
    (h : cs.all (fun y => Yaml.isAllowed y && !Yaml.isBreak y) = true) : KeptByYaml cs :=
  fun y hy => by simpa using List.all_eq_true.mp h y hy

/-- The document is read alike both as it is written by the encoder and as it is written by hand. -/
theorem sample_read_alike :
    KeptByYaml sample.encode.toList ∧ SourceFormat.ofPath "doc.json" = .json ∧
    readDocument (machineWith "doc.json" sample.encode.toUTF8) sample.encode.toUTF8 (some "-") =
      readDocument (machineWith "doc.json" sample.encode.toUTF8) .empty (some "doc.json") ∧
    readDocument (machineWith "doc.json" .empty) handwritten.toUTF8 (some "-") = .ok sample ∧
    readDocument (machineWith "doc.json" handwritten.toUTF8) .empty (some "doc.json") = .ok sample := by
  have hkept : KeptByYaml sample.encode.toList := by
    rw [Document.encode, Codec.writeJson, String.toList_ofList]
    exact keptByYaml_of_all (by decide +kernel)
  have hfile (bytes : ByteArray) :
      (machineWith "doc.json" bytes).files.read [] "doc.json" = .ok bytes := by rfl
  have hformat : SourceFormat.ofPath "doc.json" = .json := by decide +kernel
  have htext : String.ofList handwrittenValue.chars = handwritten := by decide +kernel
  have hvalid : Document.parse .yaml handwritten = .ok sample := by decide +kernel
  obtain ⟨hencoded, habridged⟩ := readDocument_encode sample
  have hhand := habridged handwrittenValue sample handwritten_abridges
    (keptByYaml_of_all (by decide +kernel)) (by decide +kernel)
  rw [htext] at hhand
  have hstdin (m : Machine) : readDocument m handwritten.toUTF8 (some "-") = .ok sample := by
    rw [readDocument_stdin, hvalid]
    rfl
  refine ⟨hkept, hformat, (hencoded hkept).read _ _ .empty (hfile _) (by decide) hformat, hstdin _, ?_⟩
  exact (hhand.read _ _ .empty (hfile _) (by decide) hformat).symm.trans (hstdin _)

end CommandLine

end Schematic
