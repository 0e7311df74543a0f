import Schematic.Proofs.Codec.Agreement

/-! Values that are not quite as a codec writes them. Whoever writes JSON by hand puts members into any
    order and leaves out what has a default. YAML reads such a value as JSON does, as long as records
    are still records and names are still texts: what only JSON knows are the other forms, a list for a
    record or a record for a name. -/

namespace Schematic

open Json

/-- The value has the form of another one, whose records may have more members, in any order. -/
inductive Abridges : Value → Value → Prop where
  | null : Abridges .null .null
  | bool (b : Bool) : Abridges (.bool b) (.bool b)
  | text (s : String) : Abridges (.text s) (.text s)
  | list {items whole : List Value} : items.length = whole.length →
    (∀ p ∈ items.zip whole, Abridges p.1 p.2) → Abridges (.list items true) (.list whole true)
  | record {members whole : List (String × Value)} (full : String × Value → Value) :
    (∀ m ∈ members, (m.1, full m) ∈ whole) → (∀ m ∈ members, Abridges m.2 (full m)) →
    Abridges (.record members .closed) (.record whole .closed)

theorem Abridges.refl {v : Value} (hv : Plain v) : Abridges v v := by
  induction hv with
  | null => exact .null
  | bool b => exact .bool b
  | text s => exact .text s
  | list _ ih =>
    refine .list rfl fun p hp => ?_
    obtain ⟨n, hn, rfl⟩ := List.getElem_of_mem hp
    rw [List.getElem_zip]
    exact ih _ (List.getElem_mem _)
  | record _ _ ih => exact .record Prod.snd (fun m hm => hm) ih

/-- What abridges a plain value is plain. -/
theorem Abridges.plain {v w : Value} (h : Abridges v w) (hw : Plain w) : Plain v := by
  induction h with
  | null => exact .null
  | bool b => exact .bool b
  | text s => exact .text s
  | @list items whole hlength _ ih =>
    cases hw with
    | list hwhole =>
      refine .list fun v hv => ?_
      obtain ⟨n, hn, rfl⟩ := List.getElem_of_mem hv
      have hp : (items[n], whole[n]) ∈ items.zip whole := by
        rw [← List.getElem_zip (h := by simp; omega)]
        exact List.getElem_mem _
      exact ih _ hp (hwhole _ (List.getElem_mem _))
  | record full hmem _ ih =>
    cases hw with
    | record hkeys hwhole =>
      exact .record (fun m hm => hkeys (m.1, full m) (hmem m hm))
        fun m hm => ih m hm (hwhole _ (hmem m hm))

/-- What a codec reads from an abridged form of what it writes, it reads from YAML as well. -/
def Codec.Follows {α : Type} (c : Codec α) : Prop :=
  ∀ ⦃a : Yaml.Anchors⦄ ⦃v : Value⦄ ⦃x y : α⦄, Plain v → Abridges v (c.toJson x) →
    c.ofJson v = .ok y → c.ofYaml a v.node = some y

namespace Codec

variable {α : Type} {c : Codec α}

theorem text_follows (expected : String) : (text expected).Follows := by
  intro a v x y _ h hjson
  cases h with
  | text s =>
    cases hjson
    simp only [text, Value.node, Yaml.Anchors.resolve]

theorem flag_follows : flag.Follows := by
  intro a v x y _ h hjson
  cases h with
  | bool b =>
    cases hjson
    exact flag_ofYaml a x

theorem choice_follows (options : List (String × α)) (name : α → String) :
    (choice options name).Follows := by
  intro a v x y _ h hjson
  cases h with
  | text s =>
    simp only [choice, Value.node, Yaml.Anchors.resolve, localName?, Option.map_none] at hjson ⊢
    split at hjson
    · next hfound =>
      cases hjson
      exact hfound
    · cases hjson

theorem optional_follows (hc : c.Follows) (hnull : ∀ x, c.toJson x ≠ .null) :
    (optional c).Follows := by
  intro a v x y hv h hjson
  cases x with
  | none =>
    cases h
    cases hjson
    simp [optional, Value.node, Yaml.Anchors.resolve, isAbsent?, isNullWord]
  | some x =>
    have hsome : Abridges v (c.toJson x) := h
    have hv' : v ≠ .null := by
      rintro rfl
      generalize hw : c.toJson x = w at hsome
      cases hsome
      exact hnull x hw
    rw [optional_ofJson hv'] at hjson
    obtain ⟨y, hy, rfl⟩ := map_eq_ok hjson
    rw [optional_ofYaml a hv hv', hc hv hsome hy]
    rfl

theorem items_follow (hc : c.Follows) {a : Yaml.Anchors} : ∀ {vs : List Value} {xs ys : List α},
    (∀ v ∈ vs, Plain v) → vs.length = xs.length →
    (∀ p ∈ vs.zip (xs.map c.toJson), Abridges p.1 p.2) → vs.mapM c.ofJson = .ok ys →
    (itemNodes vs).mapM (c.ofYaml a) = some ys
  | [], _, ys, _, _, _, hjson => by
    rw [List.mapM_nil] at hjson
    rw [itemNodes, List.mapM_nil, ← Except.ok.inj hjson]
    rfl
  | v :: vs, x :: xs, ys, hplain, hlength, h, hjson => by
    obtain ⟨hv, hvs⟩ := List.forall_mem_cons.mp hplain
    rw [List.map_cons, List.zip_cons_cons] at h
    obtain ⟨hfirst, hrest⟩ := List.forall_mem_cons.mp h
    rw [List.mapM_cons] at hjson
    obtain ⟨y, hy, hjson⟩ := bind_eq_ok hjson
    obtain ⟨ys, hys, hjson⟩ := bind_eq_ok hjson
    rw [itemNodes, List.mapM_cons, hc hv hfirst hy,
      items_follow hc hvs (Nat.succ.inj hlength) hrest hys, ← Except.ok.inj hjson]
    rfl

theorem listOf_follows (hc : c.Follows) : (listOf c).Follows := by
  intro a v x y hv h hjson
  cases h with
  | list hlength hitems =>
    cases hv with
    | list hplain =>
      obtain ⟨ys, hys, hjson⟩ := bind_eq_ok hjson
      rw [List.length_map] at hlength
      simp only [listOf, Value.node, Yaml.Anchors.resolve, Option.bind_eq_bind, Option.bind_some,
        items_follow hc hplain hlength hitems hys]
      exact congrArg some (Except.ok.inj hjson)

end Codec

/-! ### Records -/

/-- The same for what reading a field turns a record into. -/
def Field.Follows {ρ : Type} (f : Field ρ) : Prop :=
  ∀ ⦃a : Yaml.Anchors⦄ ⦃v : Value⦄ ⦃x y z : ρ⦄, Plain v → Abridges v (f.toJson x) →
    f.ofJson v y = .ok z → f.ofYaml a v.node y = some z

theorem Codec.Follows.field {ρ β : Type} {c : Codec β} (hc : c.Follows) (name : String)
    (required : Bool) (get : ρ → β) (put : β → ρ → ρ) :
    (Field.of name required c get put).Follows := by
  intro a v x y z hv h hjson
  obtain ⟨b, hb, rfl⟩ := Codec.map_eq_ok hjson
  simp only [Field.of, hc hv h hb]
  rfl

namespace RecordType

variable {ρ : Type} {t : RecordType ρ}

theorem field?_of_mem (hnames : t.fieldNames.Nodup) {f : Field ρ} (hf : f ∈ t.fields) :
    t.field? f.name = some f := by
  have hfirst : ∀ fs : List (Field ρ), (fs.map (·.name)).Nodup → f ∈ fs →
      fs.find? (fun g => g.name = f.name) = some f := by
    intro fs hnodup hmem
    induction fs with
    | nil => cases hmem
    | cons g gs ih =>
      obtain ⟨hg, hgs⟩ := List.nodup_cons.mp hnodup
      rcases List.mem_cons.mp hmem with rfl | hmem
      · simp
      · have hne : g.name ≠ f.name := fun h => hg (List.mem_map.mpr ⟨f, hmem, h.symm⟩)
        rw [List.find?_cons_of_neg (by simpa using hne), ih hgs hmem]
  exact hfirst t.fields hnames hf

/-- Members are read alike if each abridges what its field writes. -/
theorem members_follow (hfields : ∀ f ∈ t.fields, f.Follows) (x : ρ) {a : Yaml.Anchors} :
    ∀ {ms : List (String × Value)} {seen : List String} {y : ρ} {r : List String × ρ},
    (∀ m ∈ ms, Plain m.2) →
    (∀ m ∈ ms, ∀ f, t.field? m.1 = some f → Abridges m.2 (f.toJson x)) →
    t.readMembers seen y ms = .ok r → t.readEntries a seen y (memberNodes ms) = some r
  | [], seen, y, r, _, _, hjson => congrArg some (Except.ok.inj hjson)
  | (key, v) :: ms, seen, y, r, hplain, h, hjson => by
    obtain ⟨hv, hms⟩ := List.forall_mem_cons.mp hplain
    obtain ⟨hfirst, hrest⟩ := List.forall_mem_cons.mp h
    rw [readMembers] at hjson
    cases hf : t.field? key with
    | none => simp [hf] at hjson
    | some f =>
      simp only [hf] at hjson
      split at hjson
      · cases hjson
      · next hnew =>
        obtain ⟨z, hz, hjson⟩ := Codec.bind_eq_ok hjson
        simp only [memberNodes, readEntries, Yaml.Anchors.resolve, Option.bind_eq_bind,
          Option.bind_some, hf, hnew, hfields f (mem_of_field? hf) hv (hfirst f hf) hz]
        exact members_follow hfields x hms hrest hjson

theorem codec_follows (hfields : ∀ f ∈ t.fields, f.Follows) (hnames : t.fieldNames.Nodup) :
    t.codec.Follows := by
  intro a v x y hv h hjson
  cases h with
  | @record members _ full hmem habridges =>
    cases hv with
    | record hkeys hplain =>
      obtain ⟨⟨seen, z⟩, hmembers, hjson⟩ := Codec.bind_eq_ok hjson
      have hentries := members_follow (a := a) hfields x hplain (fun m hm f hf => ?_) hmembers
      · cases hmissing : t.missing? seen with
        | some f => simp [hmissing] at hjson
        | none =>
          simp only [hmissing] at hjson
          cases hjson
          simp [codec, ofYaml, Value.node, Yaml.Anchors.resolve, hentries, hmissing]
      · obtain ⟨g, hg, hmember⟩ := List.mem_map.mp (hmem m hm)
        obtain ⟨hname, hwritten⟩ := Prod.mk.inj hmember
        rw [← hname, field?_of_mem hnames hg] at hf
        obtain rfl := Option.some.inj hf
        rw [hwritten]
        exact habridges m hm

end RecordType

end Schematic
