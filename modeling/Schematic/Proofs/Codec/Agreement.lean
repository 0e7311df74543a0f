import Schematic.Codec
import Schematic.Proofs.Yaml.Nodes

/-! What JSON and YAML make of the same value. One may refuse what the other accepts, but where both
    accept a plain value they read the same from it. -/

namespace Schematic

open Json

/-- JSON and YAML never read different things from a plain value. -/
def Codec.Agrees {α : Type} (c : Codec α) : Prop :=
  ∀ ⦃a : Yaml.Anchors⦄ ⦃v : Value⦄ ⦃x y : α⦄, Plain v → c.ofJson v = .ok x →
    c.ofYaml a v.node = some y → x = y

namespace Codec

variable {α : Type} {c : Codec α}

theorem map_eq_ok {β γ : Type} {e : Except Misfit β} {f : β → γ} {x : γ} (h : f <$> e = .ok x) :
    ∃ y, e = .ok y ∧ f y = x := by
  cases e with
  | error m => cases h
  | ok y => exact ⟨y, rfl, Except.ok.inj h⟩

theorem bind_eq_ok {β γ : Type} {e : Except Misfit β} {f : β → Except Misfit γ} {x : γ}
    (h : e >>= f = .ok x) : ∃ y, e = .ok y ∧ f y = .ok x := by
  cases e with
  | error m => cases h
  | ok y => exact ⟨y, rfl, h⟩

theorem text_agrees (expected : String) : (text expected).Agrees := by
  intro a v x y hv hjson hyaml
  cases hv with
  | text s =>
    simp only [text, Value.node, Yaml.Anchors.resolve] at hjson hyaml
    exact (Except.ok.inj hjson).symm.trans (Option.some.inj hyaml)
  | _ => cases hjson

theorem flag_ofYaml (a : Yaml.Anchors) (b : Bool) : flag.ofYaml a (Value.bool b).node = some b := by
  cases b <;> simp [flag, Value.node, Yaml.Anchors.resolve, truth?]

theorem flag_agrees : flag.Agrees := by
  intro a v x y hv hjson hyaml
  cases hv with
  | bool b =>
    exact (Except.ok.inj hjson).symm.trans (Option.some.inj ((flag_ofYaml a b).symm.trans hyaml))
  | _ => cases hjson

theorem choice_agrees (options : List (String × α)) (name : α → String) :
    (choice options name).Agrees := by
  intro a v x y hv hjson hyaml
  cases hv with
  | text s =>
    simp only [choice, Value.node, Yaml.Anchors.resolve, localName?, Option.map_none] at hjson hyaml
    rw [hyaml] at hjson
    exact (Except.ok.inj hjson).symm
  | record hkeys hplain => simp [choice, Value.node, Yaml.Anchors.resolve] at hyaml
  | _ => cases hjson

/-- Of what is written in plain JSON, only null stands for nothing. -/
theorem isAbsent?_node {v : Value} (hv : Plain v) (hnull : v ≠ .null) :
    isAbsent? v.node = some false := by
  cases hv with
  | null => exact absurd rfl hnull
  | bool b => cases b <;> simp [Value.node, isAbsent?, isNullWord]
  | text s => simp only [Value.node, isAbsent?]
  | list h => simp only [Value.node, isAbsent?]
  | record hkeys h => simp only [Value.node, isAbsent?]

theorem optional_ofJson {v : Value} (hnull : v ≠ .null) :
    (optional c).ofJson v = some <$> c.ofJson v := by
  cases v with
  | null => exact absurd rfl hnull
  | _ => rfl

theorem optional_ofYaml (a : Yaml.Anchors) {v : Value} (hv : Plain v) (hnull : v ≠ .null) :
    (optional c).ofYaml a v.node = some <$> c.ofYaml a v.node := by
  simp [optional, Yaml.resolve_node, isAbsent?_node hv hnull]

theorem optional_agrees (hc : c.Agrees) : (optional c).Agrees := by
  intro a v x y hv hjson hyaml
  by_cases hnull : v = .null
  · subst hnull
    have hnone : (optional c).ofYaml a Value.null.node = some none := by
      simp [optional, Value.node, Yaml.Anchors.resolve, isAbsent?, isNullWord]
    exact (Except.ok.inj hjson).symm.trans (Option.some.inj (hnone.symm.trans hyaml))
  · rw [optional_ofJson hnull] at hjson
    rw [optional_ofYaml a hv hnull] at hyaml
    obtain ⟨x, hx, rfl⟩ := map_eq_ok hjson
    obtain ⟨y, hy, rfl⟩ := Option.map_eq_some_iff.mp hyaml
    exact congrArg some (hc hv hx hy)

theorem items_agree (hc : c.Agrees) {a : Yaml.Anchors} : ∀ {vs : List Value} {xs ys : List α},
    (∀ v ∈ vs, Plain v) → vs.mapM c.ofJson = .ok xs →
    (itemNodes vs).mapM (c.ofYaml a) = some ys → xs = ys
  | [], xs, ys, _, hjson, hyaml => by
    rw [List.mapM_nil] at hjson
    rw [itemNodes, List.mapM_nil] at hyaml
    exact (Except.ok.inj hjson).symm.trans (Option.some.inj hyaml)
  | v :: vs, xs, ys, hplain, hjson, hyaml => by
    obtain ⟨hv, hvs⟩ := List.forall_mem_cons.mp hplain
    rw [List.mapM_cons] at hjson
    rw [itemNodes, List.mapM_cons] at hyaml
    obtain ⟨x, hx, hjson⟩ := bind_eq_ok hjson
    obtain ⟨xs, hxs, hjson⟩ := bind_eq_ok hjson
    obtain ⟨y, hy, hyaml⟩ := Option.bind_eq_some_iff.mp hyaml
    obtain ⟨ys, hys, hyaml⟩ := Option.bind_eq_some_iff.mp hyaml
    rw [← Except.ok.inj hjson, ← Option.some.inj hyaml, hc hv hx hy, items_agree hc hvs hxs hys]

theorem listOf_agrees (hc : c.Agrees) : (listOf c).Agrees := by
  intro a v x y hv hjson hyaml
  cases hv with
  | list hplain =>
    obtain ⟨xs, hxs, hjson⟩ := bind_eq_ok hjson
    simp only [listOf, Value.node, Yaml.Anchors.resolve, Option.bind_eq_bind, Option.bind_some] at hyaml
    rw [← Except.ok.inj hjson]
    exact items_agree hc hplain hxs hyaml
  | _ => cases hjson

end Codec

/-! ### Records -/

/-- The same for what reading a field turns a record into. -/
def Field.Agrees {ρ : Type} (f : Field ρ) : Prop :=
  ∀ ⦃a : Yaml.Anchors⦄ ⦃v : Value⦄ ⦃x y z : ρ⦄, Plain v → f.ofJson v x = .ok y →
    f.ofYaml a v.node x = some z → y = z

theorem Codec.Agrees.field {ρ β : Type} {c : Codec β} (hc : c.Agrees) (name : String)
    (required : Bool) (get : ρ → β) (put : β → ρ → ρ) :
    (Field.of name required c get put).Agrees := by
  intro a v x y z hv hjson hyaml
  obtain ⟨b, hb, rfl⟩ := Codec.map_eq_ok hjson
  obtain ⟨b', hb', rfl⟩ := Option.map_eq_some_iff.mp hyaml
  rw [hc hv hb hb']

namespace RecordType

variable {ρ : Type} {t : RecordType ρ}

theorem mem_of_field? {name : String} {f : Field ρ} (h : t.field? name = some f) : f ∈ t.fields :=
  List.mem_of_find?_eq_some h

theorem members_agree (hfields : ∀ f ∈ t.fields, f.Agrees) {a : Yaml.Anchors} :
    ∀ {ms : List (String × Value)} {seen : List String} {x : ρ} {r s : List String × ρ},
    (∀ m ∈ ms, Plain m.2) → t.readMembers seen x ms = .ok r →
    t.readEntries a seen x (memberNodes ms) = some s → r = s
  | [], seen, x, r, s, _, hjson, hyaml =>
    (Except.ok.inj hjson).symm.trans (Option.some.inj hyaml)
  | (key, v) :: ms, seen, x, r, s, hplain, hjson, hyaml => by
    obtain ⟨hv, hms⟩ := List.forall_mem_cons.mp hplain
    simp only [memberNodes, readEntries, Yaml.Anchors.resolve, Option.bind_eq_bind] at hyaml
    obtain ⟨f, hf, hyaml⟩ := Option.bind_eq_some_iff.mp hyaml
    simp only [readMembers, hf] at hjson
    split at hyaml
    · cases hyaml
    · next hnew =>
      rw [if_neg hnew] at hjson
      obtain ⟨y, hy, hjson⟩ := Codec.bind_eq_ok hjson
      obtain ⟨z, hz, hyaml⟩ := Option.bind_eq_some_iff.mp hyaml
      obtain rfl := hfields f (mem_of_field? hf) hv hy hz
      exact members_agree hfields hms hjson hyaml

theorem codec_agrees (hfields : ∀ f ∈ t.fields, f.Agrees) : t.codec.Agrees := by
  intro a v x y hv hjson hyaml
  cases hv with
  | record hkeys hplain =>
    simp only [codec, ofYaml, Value.node, Yaml.Anchors.resolve, Option.bind_eq_bind,
      Option.bind_some] at hyaml
    obtain ⟨⟨seen, z⟩, hentries, hyaml⟩ := Option.bind_eq_some_iff.mp hyaml
    obtain ⟨r, hmembers, hjson⟩ := Codec.bind_eq_ok hjson
    obtain rfl := members_agree hfields hplain hmembers hentries
    cases hmissing : t.missing? seen with
    | some f => simp [hmissing] at hyaml
    | none =>
      simp only [hmissing, Option.isSome_none, Bool.false_eq_true, if_false] at hjson hyaml
      exact (Except.ok.inj hjson).symm.trans (Option.some.inj hyaml)
  | list hplain => simp [codec, ofYaml, Value.node, Yaml.Anchors.resolve, Codec.isEmptyNode] at hyaml
  | _ => cases hjson

end RecordType

end Schematic
