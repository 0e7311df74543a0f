import Mathlib.Data.List.Nodup
import Schematic.Document.Validation

/-! What a document is that has no fault. Checks are made in a fixed order and end at the first one that
    fails; none fails just when ids are there and differ, and every reference names an entry of the
    right kind. -/

namespace Schematic.Document

/-- The document has an entry of that kind with that id. -/
def Has (doc : Document) (kind : EntryKind) (id : String) : Prop := (id, kind) ∈ doc.ids

/-- Ids are there and differ, references name entries of the right kind, and paths have two ends. -/
structure WellFormed (doc : Document) : Prop where
  id_ne : ∀ id ∈ doc.ids.map (·.1), id ≠ ""
  ids_nodup : (doc.ids.map (·.1)).Nodup
  group_within : ∀ g ∈ doc.groups, ∀ id ∈ g.within, doc.Has .group id
  host_within : ∀ h ∈ doc.hosts, ∀ id ∈ h.within, doc.Has .group id
  instance_within : ∀ i ∈ doc.instances, ∀ id ∈ i.within, doc.Has .group id
  instance_on : ∀ i ∈ doc.instances, ∀ id ∈ i.on, doc.Has .host id
  details : ∀ p ∈ doc.processors, ∀ l ∈ p.details, ∀ id ∈ l.targets, doc.Has .inst id
  path_length : ∀ s ∈ doc.systems, ∀ l ∈ s.links, 2 ≤ l.path.length
  path : ∀ s ∈ doc.systems, ∀ l ∈ s.links, ∀ id ∈ l.path, doc.Has .inst id
  contains : ∀ s ∈ doc.systems, ∀ id ∈ s.contains, ∃ kind, doc.Has kind id

/-! ### Single checks -/

/-- Two checks in a row find nothing when neither does. -/
theorem seq_eq_ok {a b : Except Fault Unit} :
    (do a; b) = .ok () ↔ a = .ok () ∧ b = .ok () := by
  cases a <;> simp [bind, Except.bind]

theorem checkEach_eq_ok {α : Type} {check : α → Except Fault Unit} :
    ∀ {xs : List α}, checkEach check xs = .ok () ↔ ∀ x ∈ xs, check x = .ok ()
  | [] => by simp [checkEach]
  | x :: xs => by rw [checkEach, seq_eq_ok, checkEach_eq_ok, List.forall_mem_cons]

theorem checkIds_eq_ok : ∀ {ids : List (String × EntryKind)} {seen : List String},
    checkIds seen ids = .ok () ↔ (∀ id ∈ ids.map (·.1), id ≠ "") ∧ (ids.map (·.1)).Nodup ∧
      ∀ id ∈ ids.map (·.1), id ∉ seen
  | [], _ => by simp [checkIds]
  | (id, kind) :: rest, seen => by
    rw [checkIds]
    by_cases hempty : id = ""
    · simp [hempty]
    by_cases hseen : id ∈ seen
    · simp [hempty, hseen]
    rw [if_neg hempty, if_neg hseen, checkIds_eq_ok, List.map_cons, List.nodup_cons,
      List.forall_mem_cons, List.forall_mem_cons]
    constructor
    · rintro ⟨hne, hnodup, hfresh⟩
      refine ⟨⟨hempty, hne⟩, ⟨fun hmem => hfresh id hmem (List.mem_cons_self ..), hnodup⟩, hseen, ?_⟩
      exact fun other hmem hin => hfresh other hmem (List.mem_cons_of_mem _ hin)
    · rintro ⟨⟨-, hne⟩, ⟨hid, hnodup⟩, -, hfresh⟩
      refine ⟨hne, hnodup, fun other hmem hin => ?_⟩
      rcases List.mem_cons.mp hin with rfl | hin
      · exact hid hmem
      · exact hfresh other hmem hin

theorem require_eq_ok {ids : List (String × EntryKind)} {expected : EntryKind} {place : Place}
    {id : String} : require ids expected place id = .ok () ↔ ids.lookup id = some expected := by
  rw [require]
  cases ids.lookup id with
  | none => simp
  | some found => by_cases h : found = expected <;> simp [h]

theorem requireIfAny_eq_ok {ids : List (String × EntryKind)} {expected : EntryKind} {place : Place}
    {ref : Option String} : requireIfAny ids expected place ref = .ok () ↔
      ∀ id ∈ ref, ids.lookup id = some expected := by
  cases ref with
  | none => simp [requireIfAny]
  | some id => simp [requireIfAny, require_eq_ok]

theorem checkLink_eq_ok {ids : List (String × EntryKind)} {system : String} {l : LinkEntry} :
    checkLink ids system l = .ok () ↔
      2 ≤ l.path.length ∧ ∀ id ∈ l.path, ids.lookup id = some .inst := by
  by_cases h : l.path.length < 2
  · simp [checkLink, h, Nat.not_le_of_lt h, throw, throwThe, MonadExceptOf.throw, bind, Except.bind]
  · simp [checkLink, h, checkEach_eq_ok, require_eq_ok, Nat.le_of_not_lt h]

theorem checkNode_eq_ok {ids : List (String × EntryKind)} {system id : String} :
    checkNode ids system id = .ok () ↔ ∃ kind, ids.lookup id = some kind := by
  rw [checkNode, ← Option.isSome_iff_exists]
  cases (ids.lookup id).isSome <;> simp

/-! ### All checks -/

/-- Under different ids a lookup finds every entry. -/
theorem lookup_eq_some_iff {α β : Type} [BEq α] [LawfulBEq α] {a : α} {b : β} :
    ∀ {xs : List (α × β)}, (xs.map (·.1)).Nodup → (xs.lookup a = some b ↔ (a, b) ∈ xs)
  | [], _ => by simp
  | (a', b') :: xs, h => by
    rw [List.map_cons, List.nodup_cons] at h
    rw [List.lookup_cons, List.mem_cons, Prod.mk.injEq]
    by_cases ha : a = a'
    · subst ha
      have hno : (a, b) ∉ xs := fun hmem => h.1 (List.mem_map.mpr ⟨_, hmem, rfl⟩)
      simp [hno, eq_comm]
    · rw [beq_eq_false_iff_ne.mpr ha]
      simp [ha, lookup_eq_some_iff h.2]

theorem has_iff {doc : Document} (h : (doc.ids.map (·.1)).Nodup) {kind : EntryKind} {id : String} :
    doc.ids.lookup id = some kind ↔ doc.Has kind id := lookup_eq_some_iff h

/-- A document is accepted just when it is well-formed. -/
theorem validate_eq_ok {doc : Document} : doc.validate = .ok () ↔ doc.WellFormed := by
  simp only [validate, seq_eq_ok, checkEach_eq_ok, checkGroup, checkHost, checkInstance,
    checkProcessor, checkSystem, requireIfAny_eq_ok, require_eq_ok, checkLink_eq_ok,
    checkNode_eq_ok, checkIds_eq_ok]
  constructor
  · rintro ⟨⟨hne, hnodup, -⟩, hgroups, hhosts, hinstances, hprocessors, hsystems⟩
    simp only [has_iff hnodup] at *
    exact ⟨hne, hnodup, hgroups, hhosts, fun i hi => (hinstances i hi).1,
      fun i hi => (hinstances i hi).2, hprocessors, fun s hs l hl => ((hsystems s hs).1 l hl).1,
      fun s hs l hl => ((hsystems s hs).1 l hl).2, fun s hs => (hsystems s hs).2⟩
  · intro h
    simp only [has_iff h.ids_nodup]
    exact ⟨⟨h.id_ne, h.ids_nodup, by simp⟩, h.group_within, h.host_within,
      fun i hi => ⟨h.instance_within i hi, h.instance_on i hi⟩, h.details,
      fun s hs => ⟨fun l hl => ⟨h.path_length s hs l hl, h.path s hs l hl⟩, h.contains s hs⟩⟩

/-! ### Entries -/

variable {doc : Document}

theorem has_group_iff {id : String} : doc.Has .group id ↔ ∃ g ∈ doc.groups, g.id = id := by
  simp [Has, ids]

theorem has_host_iff {id : String} : doc.Has .host id ↔ ∃ h ∈ doc.hosts, h.id = id := by
  simp [Has, ids]

theorem has_inst_iff {id : String} : doc.Has .inst id ↔ ∃ i ∈ doc.instances, i.id = id := by
  simp [Has, ids]

/-- Groups, hosts and instances each have different ids, and no two of them share one. -/
theorem ids_nodup_iff : (doc.ids.map (·.1)).Nodup ↔
    (doc.groups.map (·.id)).Nodup ∧ (doc.hosts.map (·.id)).Nodup ∧
      (doc.instances.map (·.id)).Nodup ∧
      (∀ g ∈ doc.groups, ∀ h ∈ doc.hosts, g.id ≠ h.id) ∧
      (∀ g ∈ doc.groups, ∀ i ∈ doc.instances, g.id ≠ i.id) ∧
      ∀ h ∈ doc.hosts, ∀ i ∈ doc.instances, h.id ≠ i.id := by
  have hmap : doc.ids.map (·.1) =
      doc.groups.map (·.id) ++ doc.hosts.map (·.id) ++ doc.instances.map (·.id) := by
    simp [ids, Function.comp_def]
  simp only [hmap, List.nodup_append, List.mem_append, List.mem_map]
  constructor
  · rintro ⟨⟨hg, hh, hgh⟩, hi, hi'⟩
    refine ⟨hg, hh, hi, ?_, ?_, ?_⟩
    · exact fun g hg h hh => hgh _ ⟨g, hg, rfl⟩ _ ⟨h, hh, rfl⟩
    · exact fun g hg i hi => hi' _ (.inl ⟨g, hg, rfl⟩) _ ⟨i, hi, rfl⟩
    · exact fun h hh i hi => hi' _ (.inr ⟨h, hh, rfl⟩) _ ⟨i, hi, rfl⟩
  · rintro ⟨hg, hh, hi, hgh, hgi, hhi⟩
    refine ⟨⟨hg, hh, ?_⟩, hi, ?_⟩
    · rintro _ ⟨g, hg, rfl⟩ _ ⟨h, hh, rfl⟩
      exact hgh g hg h hh
    · rintro _ (⟨g, hg, rfl⟩ | ⟨h, hh, rfl⟩) _ ⟨i, hi, rfl⟩
      · exact hgi g hg i hi
      · exact hhi h hh i hi

/-- The instances of a valid document have different ids. -/
theorem nodup_of_validate (h : doc.validate = .ok ()) : (doc.instances.map (·.id)).Nodup :=
  (ids_nodup_iff.mp (validate_eq_ok.mp h).ids_nodup).2.2.1

end Schematic.Document
