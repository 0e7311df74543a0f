import Schematic.Proofs.Codec.Lawful
import Schematic.Proofs.Document.Wellformed

/-! What the members of an object come to. A record type can be described by rows, one for each field:
    a name, a codec, and what the field is when the member is absent. An object is read as a record
    just when it has members of these names only, none twice and all that are required, and each
    field of the record is what the member of its name says. -/

namespace Schematic

open Json

/-- What an object says about one field of a record. -/
structure Row (ρ : Type) where
  {β : Type}
  name : String
  codec : Codec β
  get : ρ → β
  /-- The field without the member; a field without a default is required. -/
  default : Option β

/-- The field is what the member of its name says, and the default if there is none. -/
def Row.Told {ρ : Type} (r : Row ρ) (ms : List (String × Value)) (x : ρ) : Prop :=
  match ms.lookup r.name with
  | some v => r.codec.ofJson v = .ok (r.get x)
  | none => r.default = some (r.get x)

/-- The members say all about the record, and nothing else. -/
structure Tells {ρ : Type} (rows : List (Row ρ)) (ms : List (String × Value)) (x : ρ) : Prop where
  known : ∀ m ∈ ms, m.1 ∈ rows.map (·.name)
  once : (ms.map (·.1)).Nodup
  complete : ∀ r ∈ rows, r.default = none → r.name ∈ ms.map (·.1)
  told : ∀ r ∈ rows, r.Told ms x
  /-- Null stands for the default, where it stands for anything. -/
  null : ∀ r ∈ rows, ms.lookup r.name = some .null → r.default = some (r.get x)

namespace Field

variable {ρ : Type}

/-- The field is read as the row says, and put into the record where the row looks for it. -/
structure Shows (f : Field ρ) (r : Row ρ) : Prop where
  name : f.name = r.name
  required : f.required = r.default.isNone
  reads : ∃ put : r.β → ρ → ρ, (∀ v x, f.ofJson v x = (put · x) <$> r.codec.ofJson v) ∧
    ∀ y x, r.get (put y x) = y

/-- Reading the field leaves alone what the row looks at. -/
def Spares (f : Field ρ) (r : Row ρ) : Prop :=
  ∀ ⦃v x y⦄, f.ofJson v x = .ok y → r.get y = r.get x

@[simp] theorem of_name {β : Type} {name : String} {required : Bool} {c : Codec β} {get : ρ → β}
    {put : β → ρ → ρ} : (Field.of name required c get put).name = name := rfl

@[simp] theorem shows_of {β : Type} {name : String} {required : Bool} {c : Codec β} {get : ρ → β}
    {put : β → ρ → ρ} {default : Option β} (hrequired : required = default.isNone)
    (hput : ∀ y x, get (put y x) = y) :
    (Field.of name required c get put).Shows ⟨name, c, get, default⟩ :=
  ⟨rfl, hrequired, put, fun _ _ => rfl, hput⟩

@[simp] theorem spares_of {β : Type} {name : String} {required : Bool} {c : Codec β} {get : ρ → β}
    {put : β → ρ → ρ} {r : Row ρ} (hput : ∀ y x, r.get (put y x) = r.get x) :
    (Field.of name required c get put).Spares r := by
  intro v x y h
  obtain ⟨b, -, rfl⟩ := Codec.map_eq_ok h
  exact hput b x

/-- Puts values into the fields of a record, one after the other. -/
def fill : List (Field ρ × Value) → ρ → Except Misfit ρ
  | [], x => .ok x
  | (f, v) :: ps, x => f.ofJson v x >>= fill ps

theorem fill_append : ∀ (ps qs : List (Field ρ × Value)) (x : ρ),
    fill (ps ++ qs) x = fill ps x >>= fill qs
  | [], qs, x => rfl
  | (f, v) :: ps, qs, x => by
    rw [List.cons_append, fill, fill]
    cases f.ofJson v x with
    | error m => rfl
    | ok z => exact fill_append ps qs z

end Field

/-- The rows describe the record type, field by field. -/
structure RecordType.Described {ρ : Type} (t : RecordType ρ) (rows : List (Row ρ)) : Prop where
  shown : List.Forall₂ Field.Shows t.fields rows
  spares : ∀ f ∈ t.fields, ∀ r ∈ rows, f.name ≠ r.name → f.Spares r
  nodup : (rows.map (·.name)).Nodup
  blank : ∀ r ∈ rows, ∀ y, r.default = some y → r.get t.blank = y
  /-- The rows look at all there is to a record. -/
  ext : ∀ x y, (∀ r ∈ rows, r.get x = r.get y) → x = y
  null : ∀ r ∈ rows, ∀ y, r.codec.ofJson .null = .ok y → r.default = some y

namespace RecordType

variable {ρ : Type} {t : RecordType ρ} {rows : List (Row ρ)}

/-! ### Fields and their rows -/

theorem field?_eq_some {name : String} {f : Field ρ} (h : t.field? name = some f) :
    f ∈ t.fields ∧ f.name = name :=
  ⟨mem_of_field? h, by simpa using List.find?_some h⟩

theorem field?_eq_none {name : String} : t.field? name = none ↔ name ∉ t.fieldNames := by
  simp [field?, fieldNames, List.find?_eq_none]

theorem exists_field? {name : String} (h : name ∈ t.fieldNames) : ∃ f, t.field? name = some f :=
  Option.ne_none_iff_exists'.mp fun hnone => field?_eq_none.mp hnone h

namespace Described

variable (h : t.Described rows)

include h

theorem fieldNames : t.fieldNames = rows.map (·.name) := by
  have hnames : List.Forall₂ (· = ·) (t.fields.map (·.name)) (rows.map (·.name)) :=
    List.forall₂_map_left_iff.mpr
      (List.forall₂_map_right_iff.mpr (h.shown.imp fun _ _ hf => hf.name))
  rwa [List.forall₂_eq_eq_eq] at hnames

theorem fieldNames_nodup : t.fieldNames.Nodup := h.fieldNames ▸ h.nodup

/-- The field in the place of a row. -/
theorem field_at {n : ℕ} {r : Row ρ} (hr : rows[n]? = some r) :
    ∃ f, t.fields[n]? = some f ∧ f.Shows r := by
  obtain ⟨hlength, hshown⟩ := List.forall₂_iff_get.mp h.shown
  obtain ⟨hn, rfl⟩ := List.getElem?_eq_some_iff.mp hr
  exact ⟨_, List.getElem?_eq_getElem (hlength ▸ hn), hshown n (hlength ▸ hn) hn⟩

theorem exists_field {r : Row ρ} (hr : r ∈ rows) : ∃ f ∈ t.fields, f.Shows r := by
  obtain ⟨n, hn⟩ := List.getElem?_of_mem hr
  obtain ⟨f, hf, hshows⟩ := h.field_at hn
  exact ⟨f, List.mem_of_getElem? hf, hshows⟩

theorem exists_row {f : Field ρ} (hf : f ∈ t.fields) : ∃ r ∈ rows, f.Shows r := by
  have hname : f.name ∈ rows.map (·.name) := h.fieldNames ▸ List.mem_map_of_mem hf
  obtain ⟨r, hr, hrf⟩ := List.mem_map.mp hname
  obtain ⟨g, hg, hshows⟩ := h.exists_field hr
  obtain rfl := List.inj_on_of_nodup_map h.fieldNames_nodup hg hf (hshows.name.trans hrf)
  exact ⟨r, hr, hshows⟩

/-- A field is shown by the row of its name. -/
theorem shows_of_name {f : Field ρ} {r : Row ρ} (hf : f ∈ t.fields) (hr : r ∈ rows)
    (hname : f.name = r.name) : f.Shows r := by
  obtain ⟨r', hr', hshows⟩ := h.exists_row hf
  obtain rfl := List.inj_on_of_nodup_map h.nodup hr' hr (hshows.name.symm.trans hname)
  exact hshows

/-! ### Putting values into fields -/

/-- After putting values into fields of different names, each of these fields is what its value says,
    and the others are as they were. -/
theorem fill_told : ∀ {ps : List (Field ρ × Value)} {x y : ρ},
    (∀ p ∈ ps, p.1 ∈ t.fields) → (ps.map (·.1.name)).Nodup → Field.fill ps x = .ok y →
    ∀ r ∈ rows, (∀ p ∈ ps, p.1.name = r.name → r.codec.ofJson p.2 = .ok (r.get y)) ∧
      ((∀ p ∈ ps, p.1.name ≠ r.name) → r.get y = r.get x)
  | [], x, y, _, _, hfill, r, _ => by
    cases hfill
    exact ⟨by simp, fun _ => rfl⟩
  | (f, v) :: ps, x, y, hfields, hnodup, hfill, r, hr => by
    obtain ⟨hf, hps⟩ := List.forall_mem_cons.mp hfields
    obtain ⟨hnew, hnodup⟩ := List.nodup_cons.mp hnodup
    obtain ⟨z, hz, hfill⟩ := Codec.bind_eq_ok hfill
    obtain ⟨htold, hkept⟩ := fill_told hps hnodup hfill r hr
    by_cases hname : f.name = r.name
    · obtain ⟨put, hreads, hput⟩ := (h.shows_of_name hf hr hname).reads
      -- no later value goes to the same field, so this one stays
      have hothers : ∀ p ∈ ps, p.1.name ≠ r.name := fun p hp heq =>
        hnew (List.mem_map.mpr ⟨p, hp, heq.trans hname.symm⟩)
      rw [hreads] at hz
      obtain ⟨b, hb, rfl⟩ := Codec.map_eq_ok hz
      refine ⟨List.forall_mem_cons.mpr ⟨fun _ => ?_, htold⟩, fun hnone => ?_⟩
      · rw [hkept hothers, hput, hb]
      · exact absurd hname (hnone _ (List.mem_cons_self ..))
    · refine ⟨List.forall_mem_cons.mpr ⟨fun heq => absurd heq hname, htold⟩, fun hnone => ?_⟩
      rw [hkept fun p hp => hnone p (List.mem_cons_of_mem _ hp), h.spares f hf r hr hname hz]

/-- Values that can be read can be put into fields. -/
theorem fill_ok : ∀ {ps : List (Field ρ × Value)} (x : ρ), (∀ p ∈ ps, p.1 ∈ t.fields) →
    (∀ p ∈ ps, ∀ r ∈ rows, p.1.name = r.name → ∃ y, r.codec.ofJson p.2 = .ok y) →
    ∃ y, Field.fill ps x = .ok y
  | [], x, _, _ => ⟨x, rfl⟩
  | (f, v) :: ps, x, hfields, hread => by
    obtain ⟨hf, hps⟩ := List.forall_mem_cons.mp hfields
    obtain ⟨hv, hread⟩ := List.forall_mem_cons.mp hread
    obtain ⟨r, hr, hshows⟩ := h.exists_row hf
    obtain ⟨put, hreads, -⟩ := hshows.reads
    obtain ⟨b, hb⟩ := hv r hr hshows.name
    obtain ⟨y, hy⟩ := fill_ok (put b x) hps hread
    refine ⟨y, ?_⟩
    rw [Field.fill, hreads, hb]
    exact hy

/-- Values that can be put into one record can be put into any other, to the same effect. -/
theorem fill_any : ∀ {ps : List (Field ρ × Value)} {x y : ρ}, (∀ p ∈ ps, p.1 ∈ t.fields) →
    Field.fill ps x = .ok y → ∃ g : ρ → ρ, g x = y ∧ ∀ z, Field.fill ps z = .ok (g z)
  | [], x, y, _, hfill => ⟨id, Except.ok.inj hfill, fun _ => rfl⟩
  | (f, v) :: ps, x, y, hfields, hfill => by
    obtain ⟨hf, hps⟩ := List.forall_mem_cons.mp hfields
    obtain ⟨x', hx', hfill⟩ := Codec.bind_eq_ok hfill
    obtain ⟨g, hg, hany⟩ := fill_any hps hfill
    obtain ⟨r, hr, hshows⟩ := h.exists_row hf
    obtain ⟨put, hreads, -⟩ := hshows.reads
    rw [hreads] at hx'
    obtain ⟨b, hb, rfl⟩ := Codec.map_eq_ok hx'
    refine ⟨fun z => g (put b z), hg, fun z => ?_⟩
    rw [Field.fill, hreads, hb]
    exact hany (put b z)

/-- Of what is put into the fields, one value can be exchanged for another: what comes of it depends
    only on what the value is read as. -/
theorem fill_exchange {ps qs : List (Field ρ × Value)} {f : Field ρ} {r : Row ρ} {v : Value} {x y : ρ}
    (hfields : ∀ p ∈ ps ++ (f, v) :: qs, p.1 ∈ t.fields)
    (hnodup : ((ps ++ (f, v) :: qs).map (·.1.name)).Nodup) (hr : r ∈ rows) (hshows : f.Shows r)
    (hfill : Field.fill (ps ++ (f, v) :: qs) x = .ok y) :
    r.codec.ofJson v = .ok (r.get y) ∧ ∃ g : r.β → ρ, g (r.get y) = y ∧
      ∀ w, Field.fill (ps ++ (f, w) :: qs) x = g <$> r.codec.ofJson w := by
  have htold := (h.fill_told hfields hnodup hfill r hr).1 (f, v) (by simp) hshows.name
  obtain ⟨put, hreads, -⟩ := hshows.reads
  rw [Field.fill_append] at hfill
  obtain ⟨z, hz, hfill⟩ := Codec.bind_eq_ok hfill
  obtain ⟨z', hz', hfill⟩ := Codec.bind_eq_ok hfill
  rw [hreads, htold] at hz'
  obtain ⟨g, hg, hany⟩ := h.fill_any (fun p hp => hfields p (by simp [hp])) hfill
  refine ⟨htold, fun b => g (put b z), ?_, fun w => ?_⟩
  · obtain rfl := Except.ok.inj hz'
    exact hg
  · rw [Field.fill_append, hz]
    simp only [bind, Except.bind, Field.fill, hreads]
    cases r.codec.ofJson w with
    | error m => rfl
    | ok b => exact hany (put b z)

end Described

/-! ### Objects -/

/-- An object of the record type can have members of these names. -/
structure Allows (t : RecordType ρ) (names : List String) : Prop where
  known : ∀ name ∈ names, name ∈ t.fieldNames
  once : names.Nodup
  complete : ∀ f ∈ t.fields, f.required → f.name ∈ names

/-- The fields that members name, with their values. -/
def pairs (t : RecordType ρ) (ms : List (String × Value)) : List (Field ρ × Value) :=
  ms.filterMap fun m => (t.field? m.1).map (·, m.2)

theorem pairs_append (ms ms' : List (String × Value)) :
    t.pairs (ms ++ ms') = t.pairs ms ++ t.pairs ms' := List.filterMap_append

theorem pairs_cons {name : String} {f : Field ρ} (hf : t.field? name = some f) (v : Value)
    (ms : List (String × Value)) : t.pairs ((name, v) :: ms) = (f, v) :: t.pairs ms := by
  simp [pairs, hf]

theorem mem_pairs {ms : List (String × Value)} {p : Field ρ × Value} (hp : p ∈ t.pairs ms) :
    p.1 ∈ t.fields ∧ (p.1.name, p.2) ∈ ms := by
  obtain ⟨⟨name, v⟩, hm, hp⟩ := List.mem_filterMap.mp hp
  obtain ⟨f, hf, rfl⟩ := Option.map_eq_some_iff.mp hp
  obtain ⟨hmem, rfl⟩ := field?_eq_some hf
  exact ⟨hmem, hm⟩

theorem pairs_names : ∀ {ms : List (String × Value)}, (∀ m ∈ ms, m.1 ∈ t.fieldNames) →
    (t.pairs ms).map (·.1.name) = ms.map (·.1)
  | [], _ => rfl
  | (name, v) :: ms, hknown => by
    obtain ⟨hname, hknown⟩ := List.forall_mem_cons.mp hknown
    obtain ⟨f, hf⟩ := exists_field? hname
    rw [pairs_cons hf, List.map_cons, List.map_cons, pairs_names hknown, (field?_eq_some hf).2]

/-- Members of different known names are put into their fields in a row. -/
theorem readMembers_eq : ∀ {ms : List (String × Value)} (seen : List String) (x : ρ),
    (∀ m ∈ ms, m.1 ∈ t.fieldNames) → (ms.map (·.1)).Nodup → (∀ m ∈ ms, m.1 ∉ seen) →
    t.readMembers seen x ms =
      (((ms.map (·.1)).reverse ++ seen, ·) : ρ → _) <$> Field.fill (t.pairs ms) x
  | [], seen, x, _, _, _ => rfl
  | (name, v) :: ms, seen, x, hknown, hnodup, hnew => by
    obtain ⟨hname, hknown⟩ := List.forall_mem_cons.mp hknown
    obtain ⟨hother, hnodup⟩ := List.nodup_cons.mp hnodup
    obtain ⟨hunseen, hnew⟩ := List.forall_mem_cons.mp hnew
    obtain ⟨f, hf⟩ := exists_field? hname
    rw [pairs_cons hf, Field.fill]
    simp only [readMembers, hf, List.contains_iff_mem, hunseen, if_false]
    cases f.ofJson v x with
    | error m => rfl
    | ok z =>
      refine (readMembers_eq (name :: seen) z hknown hnodup fun m hm hseen => ?_).trans ?_
      · rcases List.mem_cons.mp hseen with heq | hseen
        · exact hother (List.mem_map.mpr ⟨m, hm, heq⟩)
        · exact hnew m hm hseen
      · simp [bind, Except.bind]

/-- What is read before the last members does not depend on them. -/
theorem readMembers_append : ∀ (ms ms' : List (String × Value)) (seen : List String) (x : ρ),
    t.readMembers seen x (ms ++ ms') =
      t.readMembers seen x ms >>= fun read => t.readMembers read.1 read.2 ms'
  | [], _, _, _ => rfl
  | (name, v) :: ms, ms', seen, x => by
    rw [List.cons_append, readMembers, readMembers]
    split
    · rfl
    · split
      · rfl
      · rename_i f _ _
        cases f.ofJson v x with
        | error m => rfl
        | ok z => exact readMembers_append ms ms' (name :: seen) z

/-- Only members of different known names are read. -/
theorem readMembers_known : ∀ {ms : List (String × Value)} {seen : List String} {x : ρ}
    {read : List String × ρ}, t.readMembers seen x ms = .ok read →
    (∀ m ∈ ms, m.1 ∈ t.fieldNames) ∧ (ms.map (·.1)).Nodup ∧ ∀ m ∈ ms, m.1 ∉ seen
  | [], _, _, _, _ => by simp
  | (name, v) :: ms, seen, x, read, hread => by
    rw [readMembers] at hread
    split at hread
    · cases hread
    · rename_i f hf
      split at hread
      · cases hread
      · rename_i hunseen
        obtain ⟨z, -, hread⟩ := Codec.bind_eq_ok hread
        obtain ⟨hknown, hnodup, hnew⟩ := readMembers_known hread
        obtain ⟨hmem, rfl⟩ := field?_eq_some hf
        simp only [List.contains_iff_mem] at hunseen
        refine ⟨List.forall_mem_cons.mpr ⟨List.mem_map_of_mem hmem, hknown⟩,
          List.nodup_cons.mpr ⟨fun hin => ?_, hnodup⟩,
          List.forall_mem_cons.mpr ⟨hunseen, fun m hm hin => ?_⟩⟩
        · obtain ⟨m, hm, heq⟩ := List.mem_map.mp hin
          exact hnew m hm (heq ▸ List.mem_cons_self ..)
        · exact hnew m hm (List.mem_cons_of_mem _ hin)

theorem allows_of_ofMembers {ms : List (String × Value)} {ending : Ending Value} {x : ρ}
    (h : t.ofMembers ms ending = .ok x) : ending = .closed ∧ t.Allows (ms.map (·.1)) := by
  obtain ⟨⟨seen, y⟩, hread, h⟩ := Codec.bind_eq_ok h
  obtain ⟨hknown, hnodup, hnew⟩ := readMembers_known hread
  rw [readMembers_eq [] t.blank hknown hnodup hnew] at hread
  obtain ⟨z, -, hseen⟩ := Codec.map_eq_ok hread
  obtain ⟨rfl, rfl⟩ := Prod.mk.inj hseen
  cases ending with
  | closed =>
    refine ⟨rfl, by simpa using hknown, hnodup, fun f hf hrequired => ?_⟩
    by_contra hnot
    have hmissing : (t.missing? ((ms.map (·.1)).reverse ++ [])).isSome :=
      List.find?_isSome.mpr ⟨f, hf, by simpa [hrequired] using hnot⟩
    obtain ⟨g, hg⟩ := Option.isSome_iff_exists.mp hmissing
    simp only [hg] at h
    cases h
  | cut => cases h
  | stray v => cases h

theorem ofMembers_eq {ms : List (String × Value)} (h : t.Allows (ms.map (·.1))) :
    t.ofMembers ms .closed = Field.fill (t.pairs ms) t.blank := by
  have hmissing : t.missing? ((ms.map (·.1)).reverse ++ []) = none := by
    rw [missing?, List.find?_eq_none]
    intro f hf
    simpa using h.complete f hf
  rw [ofMembers, readMembers_eq [] t.blank (by simpa using h.known) h.once (by simp)]
  cases Field.fill (t.pairs ms) t.blank with
  | error m => rfl
  | ok x =>
    simp only [Functor.map, Except.map, bind, Except.bind, hmissing]
    rfl

/-- The first member that is no field is told by its name. -/
theorem ofMembers_unknown {ms ms' : List (String × Value)} {ending : Ending Value} {x : ρ}
    (h : t.ofMembers (ms ++ ms') ending = .ok x) {name : String} (hname : name ∉ t.fieldNames)
    (v : Value) (ending' : Ending Value) :
    t.ofMembers (ms ++ (name, v) :: ms') ending' = .error (.unknownField name t.fieldNames) := by
  obtain ⟨read, hread, -⟩ := Codec.bind_eq_ok h
  rw [readMembers_append] at hread
  obtain ⟨before, hbefore, -⟩ := Codec.bind_eq_ok hread
  rw [ofMembers, readMembers_append, hbefore]
  simp only [bind, Except.bind, readMembers, field?_eq_none.mpr hname]

/-! ### What members tell -/

namespace Described

variable (h : t.Described rows)

include h

theorem allows_iff {names : List String} : t.Allows names ↔
    (∀ name ∈ names, name ∈ rows.map (·.name)) ∧ names.Nodup ∧
      ∀ r ∈ rows, r.default = none → r.name ∈ names := by
  constructor
  · rintro ⟨hknown, honce, hcomplete⟩
    refine ⟨h.fieldNames ▸ hknown, honce, fun r hr hnone => ?_⟩
    obtain ⟨f, hf, hshows⟩ := h.exists_field hr
    exact hshows.name ▸ hcomplete f hf (by rw [hshows.required, hnone]; rfl)
  · rintro ⟨hknown, honce, hcomplete⟩
    refine ⟨h.fieldNames ▸ hknown, honce, fun f hf hrequired => ?_⟩
    obtain ⟨r, hr, hshows⟩ := h.exists_row hf
    rw [hshows.required, Option.isNone_iff_eq_none] at hrequired
    exact hshows.name ▸ hcomplete r hr hrequired

theorem tells_of_ofMembers {ms : List (String × Value)} {ending : Ending Value} {x : ρ}
    (hread : t.ofMembers ms ending = .ok x) : ending = .closed ∧ Tells rows ms x := by
  obtain ⟨rfl, hallows⟩ := allows_of_ofMembers hread
  obtain ⟨hknown, honce, hcomplete⟩ := h.allows_iff.mp hallows
  have hnames : (t.pairs ms).map (·.1.name) = ms.map (·.1) :=
    pairs_names (List.forall_mem_map.mp hallows.known)
  rw [ofMembers_eq hallows] at hread
  have htold : ∀ r ∈ rows, r.Told ms x := by
    intro r hr
    obtain ⟨f, hf, hshows⟩ := h.exists_field hr
    obtain ⟨hin, hout⟩ := h.fill_told (fun p hp => (mem_pairs hp).1) (hnames ▸ honce) hread r hr
    rw [Row.Told]
    cases hlookup : ms.lookup r.name with
    | some v =>
      have hm := (Document.lookup_eq_some_iff honce).mp hlookup
      have hfield := field?_of_mem h.fieldNames_nodup hf
      rw [hshows.name] at hfield
      exact hin (f, v) (List.mem_filterMap.mpr ⟨_, hm, by simp [hfield]⟩) hshows.name
    | none =>
      have hnot : r.name ∉ ms.map (·.1) := fun hmem => by
        obtain ⟨⟨name, v⟩, hm, rfl⟩ := List.mem_map.mp hmem
        rw [(Document.lookup_eq_some_iff honce).mpr hm] at hlookup
        cases hlookup
      cases hdefault : r.default with
      | none => exact absurd (hcomplete r hr hdefault) hnot
      | some y =>
        rw [hout fun p hp heq => hnot (List.mem_map.mpr ⟨_, (mem_pairs hp).2, heq⟩),
          h.blank r hr y hdefault]
  refine ⟨rfl, by simpa using hknown, honce, hcomplete, htold, fun r hr hnull => ?_⟩
  have hread := htold r hr
  rw [Row.Told, hnull] at hread
  exact h.null r hr _ hread

/-- The members tell of one record only. -/
theorem tells_unique {ms : List (String × Value)} {x y : ρ} (hx : Tells rows ms x)
    (hy : Tells rows ms y) : x = y := by
  refine h.ext x y fun r hr => ?_
  have htold := hx.told r hr
  have htold' := hy.told r hr
  rw [Row.Told] at htold htold'
  cases hlookup : ms.lookup r.name with
  | some v =>
    rw [hlookup] at htold htold'
    exact Except.ok.inj (htold.symm.trans htold')
  | none =>
    rw [hlookup] at htold htold'
    exact Option.some.inj (htold.symm.trans htold')

/-- An object is read as a record just when its members tell all about that record. -/
theorem ofMembers_eq_ok_iff {ms : List (String × Value)} {ending : Ending Value} {x : ρ} :
    t.ofMembers ms ending = .ok x ↔ ending = .closed ∧ Tells rows ms x := by
  refine ⟨h.tells_of_ofMembers, ?_⟩
  rintro ⟨rfl, htells⟩
  have hallows := h.allows_iff.mpr ⟨by simpa using htells.known, htells.once, htells.complete⟩
  -- the members can be read, and what is read is the only record they tell of
  obtain ⟨y, hy⟩ := h.fill_ok t.blank (fun p hp => (mem_pairs hp).1) fun p hp r hr hname => by
    have htold := htells.told r hr
    have hm := (mem_pairs hp).2
    rw [hname] at hm
    rw [Row.Told, (Document.lookup_eq_some_iff htells.once).mpr hm] at htold
    exact ⟨_, htold⟩
  rw [ofMembers_eq hallows, hy,
    h.tells_unique htells (h.tells_of_ofMembers ((ofMembers_eq hallows).trans hy)).2]

end Described

end RecordType

namespace Tells

variable {ρ : Type} {rows : List (Row ρ)} {x : ρ}

theorem lookup_perm {ms ms' : List (String × Value)} (hnodup : (ms.map (·.1)).Nodup)
    (hperm : ms'.Perm ms) (name : String) : ms'.lookup name = ms.lookup name := by
  have hnodup' : (ms'.map (·.1)).Nodup := (hperm.map _).nodup_iff.mpr hnodup
  ext v
  rw [Document.lookup_eq_some_iff hnodup', Document.lookup_eq_some_iff hnodup, hperm.mem_iff]

/-- The order of the members does not matter. -/
theorem perm {ms ms' : List (String × Value)} (h : Tells rows ms x) (hperm : ms'.Perm ms) :
    Tells rows ms' x where
  known m hm := h.known m (hperm.subset hm)
  once := (hperm.map _).nodup_iff.mpr h.once
  complete r hr hnone := (hperm.map _).mem_iff.mpr (h.complete r hr hnone)
  told r hr := by
    rw [Row.Told, lookup_perm h.once hperm]
    exact h.told r hr
  null r hr := lookup_perm h.once hperm r.name ▸ h.null r hr

/-- With one name twice, members tell nothing. -/
theorem not_repeated {ms ms' : List (String × Value)} {name : String}
    (hname : name ∈ (ms ++ ms').map (·.1)) (v : Value) :
    ¬ Tells rows (ms ++ (name, v) :: ms') x := by
  intro h
  have honce := h.once
  rw [List.map_append, List.map_cons, List.nodup_middle, List.nodup_cons, ← List.map_append] at honce
  exact honce.1 hname

end Tells

end Schematic
