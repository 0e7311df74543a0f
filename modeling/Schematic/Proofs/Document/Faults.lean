import Schematic.Document.Source
import Schematic.Proofs.Document.Wellformed

/-! Which fault of a document is reported. All that is asked of a document stands in one list, in the
    order in which it is asked; the fault is that of the first demand that is not met, and a document
    without such a demand is accepted. -/

namespace Schematic

/-- One thing that is asked of a document. -/
inductive Demand where
  /-- An entry has an id. -/
  | named (kind : EntryKind) (id : String)
  /-- The id is none of those of the entries before. -/
  | fresh (id : String) (earlier : List String)
  /-- The id is that of an entry of that kind. -/
  | refers (id : String) (kind : EntryKind) (place : Place)
  /-- A path of the system has two ends. -/
  | long (system : String) (path : List String)
  /-- The id is that of an entry, of whatever kind. -/
  | known (id : String) (place : Place)

namespace Demand

/-- The document does what is asked. -/
def Met (doc : Document) : Demand → Prop
  | .named _ id => id ≠ ""
  | .fresh id earlier => id ∉ earlier
  | .refers id kind _ => doc.Has kind id
  | .long _ path => 2 ≤ path.length
  | .known id _ => ∃ kind, doc.Has kind id

/-- The document does not do what is asked, and the fault says so. An id that is no entry's is
    unknown; one that is that of an entry of another kind only is of the wrong kind. -/
def Breach (doc : Document) (fault : Fault) : Demand → Prop
  | .named kind id => id = "" ∧ fault = .emptyId kind
  | .fresh id earlier => id ∈ earlier ∧ fault = .duplicateId id
  | .refers id kind place =>
    (∃ found, doc.Has found id ∧ ¬ doc.Has kind id ∧ fault = .wrongKind id found kind place) ∨
      (∀ found, ¬ doc.Has found id) ∧ fault = .unknownId id kind place
  | .long system path => path.length < 2 ∧ fault = .shortPath system
  | .known id place => (∀ found, ¬ doc.Has found id) ∧ fault = .unknownNode id place

/-- What checks make of a demand when the ids of all entries are these. -/
def check (ids : List (String × EntryKind)) : Demand → Except Fault Unit
  | .named kind id => if id = "" then .error (.emptyId kind) else .ok ()
  | .fresh id earlier => if id ∈ earlier then .error (.duplicateId id) else .ok ()
  | .refers id kind place => Document.require ids kind place id
  | .long system path => if path.length < 2 then .error (.shortPath system) else .ok ()
  | .known id place =>
    if (ids.lookup id).isSome then .ok () else .error (.unknownNode id place)

/-- Each entry has an id, which is none of those of the entries before; `earlier` are the ids in front
    of all these. -/
def ofIds (earlier : List String) : List (String × EntryKind) → List Demand
  | [] => []
  | (id, kind) :: rest => .named kind id :: .fresh id earlier :: ofIds (id :: earlier) rest

/-- A reference, if there is one, is to an entry of that kind. -/
def ofReference (kind : EntryKind) (place : Place) (ref : Option String) : List Demand :=
  ref.toList.map fun id => .refers id kind place

def ofInstance (i : InstanceEntry) : List Demand :=
  ofReference .group (.entry .inst i.id) i.within ++ ofReference .host (.entry .inst i.id) i.on

def ofProcessor (p : ProcessorEntry) : List Demand :=
  p.details.flatMap fun l => l.targets.map fun id => .refers id .inst (.processor p.name)

def ofLink (system : String) (l : LinkEntry) : List Demand :=
  .long system l.path :: l.path.map fun id => .refers id .inst (.system system)

/-- All links of a system come before the nodes that it contains. -/
def ofSystem (s : SystemEntry) : List Demand :=
  s.links.flatMap (ofLink s.name) ++ s.contains.map fun id => .known id (.system s.name)

end Demand

namespace Document

/-- What is asked of the references of a document, in order. -/
def references (doc : Document) : List Demand :=
  doc.groups.flatMap (fun g => Demand.ofReference .group (.entry .group g.id) g.within)
    ++ doc.hosts.flatMap (fun h => Demand.ofReference .group (.entry .host h.id) h.within)
    ++ doc.instances.flatMap Demand.ofInstance
    ++ doc.processors.flatMap Demand.ofProcessor
    ++ doc.systems.flatMap Demand.ofSystem

/-- All that is asked of a document, in order. -/
def demands (doc : Document) : List Demand := Demand.ofIds [] doc.ids ++ doc.references

/-! ### Checks in a row -/

variable {α β : Type} {check : α → Except Fault Unit}

theorem checkEach_append (xs ys : List α) :
    checkEach check (xs ++ ys) = (do checkEach check xs; checkEach check ys) := by
  induction xs with
  | nil => rfl
  | cons x xs ih =>
    rw [List.cons_append, checkEach, checkEach, ih]
    cases check x <;> rfl

theorem checkEach_map (f : β → α) (xs : List β) :
    checkEach check (xs.map f) = checkEach (fun x => check (f x)) xs := by
  induction xs with
  | nil => rfl
  | cons x xs ih => rw [List.map_cons, checkEach, checkEach, ih]

theorem checkEach_flatMap (f : β → List α) (xs : List β) :
    checkEach check (xs.flatMap f) = checkEach (fun x => checkEach check (f x)) xs := by
  induction xs with
  | nil => rfl
  | cons x xs ih => rw [List.flatMap_cons, checkEach_append, ih, checkEach]

/-- Checks in a row end at the first that finds something. -/
theorem checkEach_eq_error {fault : Fault} : ∀ {xs : List α}, checkEach check xs = .error fault ↔
    ∃ before x after, xs = before ++ x :: after ∧ (∀ y ∈ before, check y = .ok ()) ∧
      check x = .error fault
  | [] => by simp [checkEach]
  | x :: xs => by
    rw [checkEach]
    cases hx : check x with
    | error fault' =>
      constructor
      · intro h
        exact ⟨[], x, xs, rfl, by simp, hx.trans h⟩
      · rintro ⟨before, y, after, hsplit, hbefore, hy⟩
        cases before with
        | nil =>
          obtain ⟨rfl, rfl⟩ := List.cons.inj hsplit
          exact hx.symm.trans hy
        | cons z before =>
          obtain ⟨rfl, -⟩ := List.cons.inj hsplit
          exact absurd (hx.symm.trans (hbefore x (List.mem_cons_self ..))) (by simp)
    | ok u =>
      change checkEach check xs = .error fault ↔ _
      rw [checkEach_eq_error]
      constructor
      · rintro ⟨before, y, after, rfl, hbefore, hy⟩
        exact ⟨x :: before, y, after, rfl, List.forall_mem_cons.mpr ⟨hx, hbefore⟩, hy⟩
      · rintro ⟨before, y, after, hsplit, hbefore, hy⟩
        cases before with
        | nil =>
          obtain ⟨rfl, -⟩ := List.cons.inj hsplit
          exact absurd (hx.symm.trans hy) (by simp)
        | cons z before =>
          obtain ⟨rfl, rfl⟩ := List.cons.inj hsplit
          exact ⟨before, y, after, rfl, fun w hw => hbefore w (List.mem_cons_of_mem _ hw), hy⟩

/-! ### Demands are what is checked -/

theorem checkIds_eq (ids : List (String × EntryKind)) : ∀ (entries : List (String × EntryKind))
    (seen : List String),
    checkIds seen entries = checkEach (Demand.check ids) (Demand.ofIds seen entries)
  | [], _ => rfl
  | (id, kind) :: rest, seen => by
    rw [checkIds, Demand.ofIds, checkEach, checkEach, Demand.check, Demand.check,
      checkIds_eq ids rest]
    split
    · rfl
    split
    · rfl
    · rfl

variable (ids : List (String × EntryKind))

theorem checkReference_eq (kind : EntryKind) (place : Place) (ref : Option String) :
    requireIfAny ids kind place ref =
      checkEach (Demand.check ids) (Demand.ofReference kind place ref) := by
  cases ref with
  | none => rfl
  | some id =>
    change require ids kind place id = (do require ids kind place id; pure ())
    cases require ids kind place id <;> rfl

theorem checkInstance_eq (i : InstanceEntry) :
    checkInstance ids i = checkEach (Demand.check ids) (Demand.ofInstance i) := by
  rw [checkInstance, Demand.ofInstance, checkEach_append, checkReference_eq, checkReference_eq]

theorem checkProcessor_eq (p : ProcessorEntry) :
    checkProcessor ids p = checkEach (Demand.check ids) (Demand.ofProcessor p) := by
  rw [checkProcessor, Demand.ofProcessor, checkEach_flatMap]
  simp only [checkEach_map, Demand.check]

theorem checkLink_eq (system : String) (l : LinkEntry) :
    checkLink ids system l = checkEach (Demand.check ids) (Demand.ofLink system l) := by
  rw [checkLink, Demand.ofLink, checkEach, checkEach_map, Demand.check]
  split <;> rfl

theorem checkSystem_eq (s : SystemEntry) :
    checkSystem ids s = checkEach (Demand.check ids) (Demand.ofSystem s) := by
  rw [checkSystem, Demand.ofSystem, checkEach_append, checkEach_flatMap, checkEach_map,
    funext (checkLink_eq ids s.name)]
  rfl

/-- A document is checked for what is asked of it, in order. -/
theorem validate_eq (doc : Document) :
    doc.validate = checkEach (Demand.check doc.ids) doc.demands := by
  have hgroup := funext fun g : GroupEntry =>
    checkReference_eq doc.ids .group (.entry .group g.id) g.within
  have hhost := funext fun h : HostEntry =>
    checkReference_eq doc.ids .group (.entry .host h.id) h.within
  rw [validate, checkIds_eq doc.ids, funext (checkInstance_eq doc.ids),
    funext (checkProcessor_eq doc.ids), funext (checkSystem_eq doc.ids)]
  simp only [demands, references, List.append_assoc, checkEach_append, checkEach_flatMap, ← hgroup,
    ← hhost]
  rfl

/-! ### Checks find what is asked -/

variable {doc : Document}

/-- What is asked of ids is answered without looking any of them up. -/
theorem settled_of_mem_ofIds {d : Demand} : ∀ {entries : List (String × EntryKind)}
    {earlier : List String}, d ∈ Demand.ofIds earlier entries →
      (∃ kind id, d = .named kind id) ∨ ∃ id seen, d = .fresh id seen
  | (id, kind) :: rest, earlier, h => by
    rw [Demand.ofIds, List.mem_cons, List.mem_cons] at h
    rcases h with rfl | rfl | h
    · exact .inl ⟨kind, id, rfl⟩
    · exact .inr ⟨id, earlier, rfl⟩
    · exact settled_of_mem_ofIds h

theorem lookup_eq_none_iff (h : (doc.ids.map (·.1)).Nodup) {id : String} :
    doc.ids.lookup id = none ↔ ∀ kind, ¬ doc.Has kind id := by
  constructor
  · intro hnone kind hhas
    rw [(has_iff h).mpr hhas] at hnone
    cases hnone
  · intro hno
    cases hid : doc.ids.lookup id with
    | none => rfl
    | some kind => exact absurd ((has_iff h).mp hid) (hno kind)

theorem require_eq_error (h : (doc.ids.map (·.1)).Nodup) {id : String} {kind : EntryKind}
    {place : Place} {fault : Fault} : require doc.ids kind place id = .error fault ↔
      (Demand.refers id kind place).Breach doc fault := by
  rw [require, Demand.Breach]
  cases hid : doc.ids.lookup id with
  | none =>
    have hno := (lookup_eq_none_iff h).mp hid
    simp [hno, eq_comm]
  | some found =>
    have hfound := (has_iff h).mp hid
    have hother : ∀ {other}, doc.Has other id ↔ found = other := by
      intro other
      rw [← has_iff h, hid, Option.some.injEq]
    by_cases hk : found = kind
    · simp [hother, hk]
    · simp [hother, hk, eq_comm]

theorem ite_error_iff {p : Prop} [Decidable p] {fault fault' : Fault} :
    (if p then .error fault else .ok () : Except Fault Unit) = .error fault' ↔
      p ∧ fault' = fault := by
  by_cases h : p
  · simp [h, eq_comm]
  · simp [h]

/-- While ids are checked nothing is looked up, and from then on ids are different. -/
def Settles (doc : Document) (d : Demand) : Prop :=
  d ∈ Demand.ofIds [] doc.ids ∨ (doc.ids.map (·.1)).Nodup

theorem Settles.nodup {d : Demand} (h : doc.Settles d) (hnamed : ∀ kind id, d ≠ .named kind id)
    (hfresh : ∀ id seen, d ≠ .fresh id seen) : (doc.ids.map (·.1)).Nodup := by
  refine h.resolve_left fun hmem => ?_
  rcases settled_of_mem_ofIds hmem with ⟨kind, id, h⟩ | ⟨id, seen, h⟩
  · exact hnamed kind id h
  · exact hfresh id seen h

theorem check_eq_error {d : Demand} (h : doc.Settles d) {fault : Fault} :
    d.check doc.ids = .error fault ↔ d.Breach doc fault := by
  cases d with
  | named kind id => exact ite_error_iff
  | fresh id earlier => exact ite_error_iff
  | refers id kind place => exact require_eq_error (h.nodup (by simp) (by simp))
  | long system path => exact ite_error_iff
  | known id place =>
    have hnodup := h.nodup (by simp) (by simp)
    rw [Demand.check, Demand.Breach, ← lookup_eq_none_iff hnodup]
    cases doc.ids.lookup id <;> simp [eq_comm]

theorem check_eq_ok {d : Demand} (h : doc.Settles d) : d.check doc.ids = .ok () ↔ d.Met doc := by
  cases d with
  | named kind id => simp [Demand.check, Demand.Met]
  | fresh id earlier => simp [Demand.check, Demand.Met]
  | refers id kind place => exact require_eq_ok.trans (has_iff (h.nodup (by simp) (by simp)))
  | long system path =>
    by_cases hlength : path.length < 2
    · simp only [Demand.check, Demand.Met, if_pos hlength, reduceCtorEq, Nat.not_le.mpr hlength]
    · simp only [Demand.check, Demand.Met, if_neg hlength, Nat.not_lt.mp hlength]
  | known id place =>
    have hnodup := h.nodup (by simp) (by simp)
    simp only [Demand.check, Demand.Met, ← has_iff hnodup, ← Option.isSome_iff_exists]
    cases (doc.ids.lookup id).isSome <;> simp

/-! ### The first fault -/

theorem nodup_of_met (h : ∀ d ∈ Demand.ofIds [] doc.ids, d.Met doc) :
    (doc.ids.map (·.1)).Nodup := by
  have hcheck : checkIds [] doc.ids = .ok () := by
    rw [checkIds_eq doc.ids, checkEach_eq_ok]
    exact fun d hd => (check_eq_ok (.inl hd)).mpr (h d hd)
  exact (checkIds_eq_ok.mp hcheck).2.1

/-- Up to the first demand that is not met, and there as well, a demand is either one of ids, or it
    comes after all ids were found to be different. -/
theorem settles_of_split {before after : List Demand} {d : Demand}
    (hsplit : doc.demands = before ++ d :: after)
    (hbefore : ∀ e ∈ before, e ∈ Demand.ofIds [] doc.ids → e.Met doc) :
    ∀ e ∈ before ++ [d], doc.Settles e := by
  rw [demands, List.append_eq_append_iff] at hsplit
  rcases hsplit with ⟨mid, rfl, -⟩ | ⟨mid, hids, hmid⟩
  · have hnodup := nodup_of_met fun e he => hbefore e (List.mem_append_left _ he) he
    exact fun e _ => .inr hnodup
  · cases mid with
    | nil =>
      rw [List.append_nil] at hids
      have hnodup := nodup_of_met fun e he => hbefore e (hids ▸ he) he
      exact fun e _ => .inr hnodup
    | cons e mid =>
      obtain ⟨rfl, -⟩ := List.cons.inj hmid
      intro e he
      refine .inl ?_
      rw [hids]
      rcases List.mem_append.mp he with he | he
      · exact List.mem_append_left _ he
      · rw [List.mem_singleton.mp he]
        exact List.mem_append_right _ (List.mem_cons_self ..)

/-- The fault of a document is that of the first demand that is not met. -/
theorem validate_eq_error {fault : Fault} : doc.validate = .error fault ↔
    ∃ before d after, doc.demands = before ++ d :: after ∧ (∀ e ∈ before, e.Met doc) ∧
      d.Breach doc fault := by
  rw [validate_eq, checkEach_eq_error]
  constructor
  · rintro ⟨before, d, after, hsplit, hbefore, hd⟩
    have hsettles := settles_of_split hsplit fun e he hid =>
      (check_eq_ok (.inl hid)).mp (hbefore e he)
    refine ⟨before, d, after, hsplit, fun e he => ?_, (check_eq_error (hsettles d (by simp))).mp hd⟩
    exact (check_eq_ok (hsettles e (List.mem_append_left _ he))).mp (hbefore e he)
  · rintro ⟨before, d, after, hsplit, hbefore, hd⟩
    have hsettles := settles_of_split hsplit fun e he _ => hbefore e he
    refine ⟨before, d, after, hsplit, fun e he => ?_, (check_eq_error (hsettles d (by simp))).mpr hd⟩
    exact (check_eq_ok (hsettles e (List.mem_append_left _ he))).mpr (hbefore e he)

/-- A document is well-formed when all that is asked of it is so. -/
theorem wellFormed_iff_met : doc.WellFormed ↔ ∀ d ∈ doc.demands, d.Met doc := by
  rw [← validate_eq_ok, validate_eq, checkEach_eq_ok]
  have hnodup : (∀ d ∈ doc.demands, d.check doc.ids = .ok ()) → (doc.ids.map (·.1)).Nodup :=
    fun h => nodup_of_met fun d hd =>
      (check_eq_ok (.inl hd)).mp (h d (List.mem_append_left _ hd))
  constructor
  · exact fun h d hd => (check_eq_ok (.inr (hnodup h))).mp (h d hd)
  · intro h
    have hdistinct := nodup_of_met fun d hd => h d (List.mem_append_left _ hd)
    exact fun d hd => (check_eq_ok (.inr hdistinct)).mpr (h d hd)

/-- The document, with its systems restricted to other processors. -/
def restricting (doc : Document) (only : SystemEntry → Option (List String)) : Document :=
  { doc with systems := doc.systems.map fun s => { s with only := only s } }

theorem demands_restricting (doc : Document) (only : SystemEntry → Option (List String)) :
    (doc.restricting only).demands = doc.demands := by
  simp only [demands, references, restricting, List.flatMap_map]
  rfl

/-- A document is accepted just when it is well-formed, and that is when all that is asked of it is so.
    Else the error is that of the first demand that is not met. Nothing is asked of the processors that
    systems are restricted to. -/
theorem check_reports_first (doc : Document) :
    (doc.check = .ok () ↔ doc.WellFormed) ∧
    (doc.WellFormed ↔ ∀ d ∈ doc.demands, d.Met doc) ∧
    (∀ e, doc.check = .error e ↔ ∃ before d after fault, doc.demands = before ++ d :: after ∧
      (∀ x ∈ before, x.Met doc) ∧ d.Breach doc fault ∧ e = .document fault) ∧
    ∀ only, (doc.restricting only).check = doc.check := by
  refine ⟨?_, wellFormed_iff_met, fun e => ?_, fun only => ?_⟩
  · rw [← validate_eq_ok, check]
    cases doc.validate <;> simp
  · have herror : doc.check = .error e ↔ ∃ fault, doc.validate = .error fault ∧
        e = .document fault := by
      rw [check]
      cases doc.validate <;> simp [eq_comm]
    rw [herror]
    constructor
    · rintro ⟨fault, hfault, rfl⟩
      obtain ⟨before, d, after, hsplit, hbefore, hd⟩ := validate_eq_error.mp hfault
      exact ⟨before, d, after, fault, hsplit, hbefore, hd, rfl⟩
    · rintro ⟨before, d, after, fault, hsplit, hbefore, hd, rfl⟩
      exact ⟨fault, validate_eq_error.mpr ⟨before, d, after, hsplit, hbefore, hd⟩, rfl⟩
  · have hids : (doc.restricting only).ids = doc.ids := rfl
    rw [check, check, validate_eq, validate_eq, demands_restricting, hids]

/-- A group in a host, an instance on nothing and a path that is too short. -/
def tangled : Document where
  groups := [{ id := "zone", within := some "vm" }]
  hosts := [{ id := "vm" }]
  instances := [{ id := "web", on := some "rack" }]
  systems := [{ name := "all", only := some ["none"], links := [{ path := ["web"] }] }]

/-- Of the three faults of `tangled` that of the group is the one that is told. -/
theorem tangled_reports_first : (∀ x ∈ Demand.ofIds [] tangled.ids, x.Met tangled) ∧
    tangled.check =
      .error (.document (.wrongKind "vm" .host .group (.entry .group "zone"))) := by
  have hmet : ∀ x ∈ Demand.ofIds [] tangled.ids, x.Met tangled := by
    simp [Demand.ofIds, ids, tangled, Demand.Met]
  refine ⟨hmet, ((check_reports_first tangled).2.2.1 _).mpr
    ⟨_, .refers "vm" .group (.entry .group "zone"), _, _, rfl, hmet, .inl ?_, rfl⟩⟩
  exact ⟨.host, by simp [Has, ids, tangled], by simp [Has, ids, tangled], rfl⟩

end Document

end Schematic
