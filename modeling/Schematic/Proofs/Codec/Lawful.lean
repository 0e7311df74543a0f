import Mathlib.Data.List.Forall2
import Schematic.Proofs.Codec.Abridged

/-! What a codec promises: values are written as plain JSON and are read back, from JSON and from
    the YAML that is the same. The promise of a record type's codec follows from those of its
    fields. -/

namespace Schematic

/-- What a codec writes is plain JSON and is read back as it was. What it reads from plain JSON it never
    reads differently from YAML, and what it reads from an abridged form it reads from YAML as well. -/
structure Codec.Lawful {α : Type} (c : Codec α) : Prop where
  plain (x : α) : Json.Plain (c.toJson x)
  ofJson_toJson (x : α) : c.ofJson (c.toJson x) = .ok x
  ofYaml_node (a : Yaml.Anchors) (x : α) : c.ofYaml a (c.toJson x).node = some x
  agrees : c.Agrees
  follows : c.Follows

namespace Codec

open Json

variable {α : Type} {c : Codec α}

/-- A whole text that was written is read back. -/
theorem Lawful.readJson_writeJson (hc : c.Lawful) (x : α) : c.readJson (c.writeJson x) = .ok x := by
  simp only [readJson, writeJson, readText_chars (hc.plain x), hc.ofJson_toJson x]
  rfl

/-! ### Scalars and choices -/

theorem text_lawful (expected : String) : (text expected).Lawful where
  plain := .text
  ofJson_toJson _ := rfl
  ofYaml_node _ _ := by simp only [text, Value.node, Yaml.Anchors.resolve]
  agrees := text_agrees expected
  follows := text_follows expected

theorem string_lawful : string.Lawful := text_lawful _

theorem flag_lawful : flag.Lawful where
  plain := .bool
  ofJson_toJson _ := rfl
  ofYaml_node := flag_ofYaml
  agrees := flag_agrees
  follows := flag_follows

/-- A choice whose names are told apart. -/
theorem choice_lawful {options : List (String × α)} {name : α → String}
    (h : ∀ x, options.lookup (name x) = some x) : (choice options name).Lawful where
  plain x := .text (name x)
  ofJson_toJson x := by simp only [choice, h x]
  ofYaml_node a x := by
    simp [choice, Value.node, Yaml.Anchors.resolve, localName?, h x]
  agrees := choice_agrees options name
  follows := choice_follows options name

/-! ### Options and lists -/

theorem optional_lawful (hc : c.Lawful) (hnull : ∀ x, c.toJson x ≠ .null) :
    (optional c).Lawful where
  plain
    | none => .null
    | some x => hc.plain x
  ofJson_toJson
    | none => rfl
    | some x => (optional_ofJson (hnull x)).trans (by rw [hc.ofJson_toJson]; rfl)
  ofYaml_node a
    | none => by simp [optional, Value.node, Yaml.Anchors.resolve, isAbsent?, isNullWord]
    | some x => (optional_ofYaml a (hc.plain x) (hnull x)).trans (by rw [hc.ofYaml_node]; rfl)
  agrees := optional_agrees hc.agrees
  follows := optional_follows hc.follows hnull

theorem Lawful.ofJson_items (hc : c.Lawful) (xs : List α) :
    (xs.map c.toJson).mapM c.ofJson = .ok xs := by
  induction xs with
  | nil => rfl
  | cons x xs ih => rw [List.map_cons, List.mapM_cons, hc.ofJson_toJson, ih]; rfl

theorem Lawful.ofYaml_items (hc : c.Lawful) (a : Yaml.Anchors) (xs : List α) :
    (itemNodes (xs.map c.toJson)).mapM (c.ofYaml a) = some xs := by
  induction xs with
  | nil => rfl
  | cons x xs ih => rw [List.map_cons, itemNodes, List.mapM_cons, hc.ofYaml_node, ih]; rfl

theorem listOf_lawful (hc : c.Lawful) : (listOf c).Lawful where
  plain xs := .list fun v hv => by
    obtain ⟨x, -, rfl⟩ := List.mem_map.mp hv
    exact hc.plain x
  ofJson_toJson xs := by
    simp only [listOf, hc.ofJson_items]
    rfl
  ofYaml_node a xs := by
    simp only [listOf, Value.node, Yaml.Anchors.resolve, Option.bind_eq_bind, Option.bind_some,
      hc.ofYaml_items]
  agrees := listOf_agrees hc.agrees
  follows := listOf_follows hc.follows

end Codec

/-! ### Records -/

/-- Reading what a field wrote of one record into another one copies something of it. -/
structure Field.Copies {ρ : Type} (f : Field ρ) (copy : ρ → ρ → ρ) : Prop where
  plain (x : ρ) : Json.Plain (f.toJson x)
  ofJson_toJson (x y : ρ) : f.ofJson (f.toJson x) y = .ok (copy x y)
  ofYaml_node (a : Yaml.Anchors) (x y : ρ) : f.ofYaml a (f.toJson x).node y = some (copy x y)
  agrees : f.Agrees
  follows : f.Follows

theorem Codec.Lawful.copies {ρ β : Type} {c : Codec β} (hc : c.Lawful) (name : String)
    (required : Bool) (get : ρ → β) (put : β → ρ → ρ) :
    (Field.of name required c get put).Copies fun x => put (get x) where
  plain x := hc.plain (get x)
  ofJson_toJson x y := by simp only [Field.of, hc.ofJson_toJson]; rfl
  ofYaml_node a x y := by simp only [Field.of, hc.ofYaml_node]; rfl
  agrees := hc.agrees.field name required get put
  follows := hc.follows.field name required get put

namespace RecordType

open Json

variable {ρ : Type} {t : RecordType ρ}

/-- Nothing is missing once every field was seen. -/
theorem missing?_eq_none {seen : List String} (h : ∀ name ∈ t.fieldNames, name ∈ seen) :
    t.missing? seen = none := by
  rw [missing?, List.find?_eq_none]
  intro f hf
  have hseen := h f.name (List.mem_map_of_mem hf)
  simp [hseen]

theorem exists_copies {fs : List (Field ρ)} {copies : List (ρ → ρ → ρ)}
    (h : List.Forall₂ Field.Copies fs copies) {f : Field ρ} (hf : f ∈ fs) :
    ∃ copy, f.Copies copy := by
  induction h with
  | nil => cases hf
  | @cons g copy gs copies hg hgs ih =>
    rcases List.mem_cons.mp hf with rfl | hf
    · exact ⟨copy, hg⟩
    · exact ih hf

/-- The fields of `x`, copied into `y` one after the other. -/
def copyAll (copies : List (ρ → ρ → ρ)) (x y : ρ) : ρ := copies.foldl (fun y copy => copy x y) y

/-- What reading some fields comes to, from members and from entries. -/
theorem read_fields (hnames : t.fieldNames.Nodup) (x : ρ) {fs : List (Field ρ)}
    {copies : List (ρ → ρ → ρ)} (h : List.Forall₂ Field.Copies fs copies)
    (hfields : ∀ f ∈ fs, f ∈ t.fields) (hnodup : (fs.map (·.name)).Nodup) :
    ∀ (seen : List String) (y : ρ), (∀ f ∈ fs, f.name ∉ seen) →
      let members := fs.map fun f => (f.name, f.toJson x)
      let read := ((fs.map (·.name)).reverse ++ seen, copyAll copies x y)
      t.readMembers seen y members = .ok read ∧
        ∀ a, t.readEntries a seen y (memberNodes members) = some read := by
  induction h with
  | nil => exact fun seen y _ => ⟨rfl, fun _ => rfl⟩
  | @cons f copy fs copies hf hfs ih =>
    intro seen y hseen
    obtain ⟨hfnew, hnodup⟩ := List.nodup_cons.mp hnodup
    have hnew : f.name ∉ seen := hseen f (by simp)
    have hrest : ∀ g ∈ fs, g.name ∉ f.name :: seen := fun g hg h =>
      (List.mem_cons.mp h).elim (fun h => hfnew (List.mem_map.mpr ⟨g, hg, h⟩))
        (hseen g (List.mem_cons_of_mem f hg))
    have hfield := field?_of_mem hnames (hfields f (by simp))
    obtain ⟨hmembers, hentries⟩ := ih (fun g hg => hfields g (List.mem_cons_of_mem f hg)) hnodup
      (f.name :: seen) (copy x y) hrest
    simp only [List.map_cons, readMembers, memberNodes, readEntries, Yaml.Anchors.resolve, hfield,
      List.contains_iff_mem, hnew, hf.ofJson_toJson, hf.ofYaml_node, if_false,
      List.reverse_cons, List.append_assoc, List.singleton_append, Option.bind_eq_bind,
      Option.bind_some]
    exact ⟨hmembers, hentries⟩

/-- The codec of a record type is lawful if its fields have different names and together copy all
    of a record. -/
theorem codec_lawful {copies : List (ρ → ρ → ρ)} (h : List.Forall₂ Field.Copies t.fields copies)
    (hnames : t.fieldNames.Nodup) (hlengths : ∀ name ∈ t.fieldNames, (quoted name).length ≤ 1024)
    (hcopies : ∀ x, copyAll copies x t.blank = x) : t.codec.Lawful := by
  have hmissing : t.missing? (t.fields.map (·.name)).reverse = none :=
    missing?_eq_none fun name hname => List.mem_reverse.mpr hname
  have hread (x : ρ) := read_fields hnames x h (fun f hf => hf) hnames [] t.blank (by simp)
  simp only [List.append_nil, hcopies] at hread
  refine ⟨fun x => ?_, fun x => ?_, fun a x => ?_, codec_agrees fun f hf => ?_,
    codec_follows (fun f hf => ?_) hnames⟩
  · refine .record (fun m hm => ?_) fun m hm => ?_
    all_goals obtain ⟨f, hf, rfl⟩ := List.mem_map.mp hm
    · exact hlengths f.name (List.mem_map_of_mem hf)
    · obtain ⟨copy, hcopy⟩ := exists_copies h hf
      exact hcopy.plain x
  · simp only [codec, toJson, ofJson, ofMembers, (hread x).1, bind, Except.bind, hmissing]
    rfl
  · simp [codec, toJson, ofYaml, Value.node, Yaml.Anchors.resolve, (hread x).2, hmissing]
  · obtain ⟨copy, hcopy⟩ := exists_copies h hf
    exact hcopy.agrees
  · obtain ⟨copy, hcopy⟩ := exists_copies h hf
    exact hcopy.follows

end RecordType

end Schematic
