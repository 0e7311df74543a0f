import Schematic.Proofs.Codec.Members

/-! Values inside values. A route leads from a JSON value to one inside it, through fields of records and
    items of lists. A codec focuses on the end of a route if it reads what stands there with a codec
    of its own: the rest of the value does not matter for that, and on what stands there everything
    depends only through what it is read as. -/

namespace Schematic

namespace Json

/-- A step into a value. -/
inductive Turn where
  /-- To a field of a record: a member of an object, or an item where the record is a list. -/
  | field (name : String) (index : ℕ)
  /-- To an item of a list. -/
  | item (index : ℕ)

/-- Exchanges the first value under a name. -/
def exchange (name : String) (w : Value) : List (String × Value) → List (String × Value)
  | [] => []
  | m :: ms => if m.1 = name then (name, w) :: ms else m :: exchange name w ms

namespace Turn

def at? : Turn → Value → Option Value
  | .field name _, .record ms _ => ms.lookup name
  | .field _ index, .list vs _ => vs[index]?
  | .item index, .list vs _ => vs[index]?
  | _, _ => none

/-- Exchanges the value to which a turn leads. -/
def put : Turn → Value → Value → Value
  | .field name _, w, .record ms ending => .record (exchange name w ms) ending
  | .field _ index, w, .list vs closed => .list (vs.set index w) closed
  | .item index, w, .list vs closed => .list (vs.set index w) closed
  | _, _, v => v

end Turn

abbrev Route := List Turn

namespace Route

/-- The value at the end of a route. -/
def at? : Route → Value → Option Value
  | [], v => some v
  | turn :: route, v => turn.at? v >>= at? route

/-- Exchanges the value at the end of a route. -/
def put : Route → Value → Value → Value
  | [], w, _ => w
  | turn :: route, w, v =>
    match turn.at? v with
    | some u => turn.put (put route w u) v
    | none => v

theorem at?_append : ∀ (route route' : Route) (v : Value),
    at? (route ++ route') v = at? route v >>= at? route'
  | [], _, _ => rfl
  | turn :: route, route', v => by
    rw [List.cons_append, at?, at?]
    cases turn.at? v with
    | none => rfl
    | some u => exact at?_append route route' u

theorem put_append {route' : Route} {w : Value} : ∀ {route : Route} {u v : Value},
    at? route v = some u → put (route ++ route') w v = put route (put route' w u) v
  | [], u, v, h => by
    obtain rfl := Option.some.inj h
    rfl
  | turn :: route, u, v, h => by
    obtain ⟨v', hturn, hu⟩ := Option.bind_eq_some_iff.mp h
    simp only [List.cons_append, put, hturn, put_append hu]

end Route

theorem exists_exchange {name : String} {v : Value} : ∀ {ms : List (String × Value)},
    ms.lookup name = some v → ∃ before after, ms = before ++ (name, v) :: after ∧
      ∀ w, exchange name w ms = before ++ (name, w) :: after
  | (name', v') :: ms, h => by
    rw [List.lookup_cons] at h
    by_cases hname : name' = name
    · subst hname
      rw [beq_self_eq_true] at h
      obtain rfl := Option.some.inj h
      exact ⟨[], ms, rfl, fun w => by simp [exchange]⟩
    · rw [beq_eq_false_iff_ne.mpr (Ne.symm hname)] at h
      obtain ⟨before, after, rfl, hexchange⟩ := exists_exchange h
      exact ⟨(name', v') :: before, after, rfl, fun w => by simp [exchange, hname, hexchange]⟩

end Json

open Json

/-- The codec reads what stands at the end of the route with another codec, as a part of the whole,
    which depends on it only through what it is read as. -/
def Codec.Focus {α β : Type} (c : Codec α) (route : Route) (c' : Codec β) (part? : α → Option β) :
    Prop :=
  ∀ ⦃v w : Value⦄ ⦃x : α⦄, c.ofJson v = .ok x → route.at? v = some w →
    ∃ y, part? x = some y ∧ c'.ofJson w = .ok y ∧
      ∃ g : β → α, g y = x ∧ ∀ w', c.ofJson (route.put w' v) = g <$> c'.ofJson w'

namespace Codec.Focus

variable {α β γ : Type} {c : Codec α} {c' : Codec β} {c'' : Codec γ}

theorem here : c.Focus [] c some := by
  intro v w x hread hat
  obtain rfl := Option.some.inj hat
  exact ⟨x, rfl, hread, id, rfl, fun w' => (id_map _).symm⟩

/-- It is enough to look at one turn. -/
theorem of_turn {turn : Turn} {part? : α → Option β}
    (h : ∀ ⦃v w : Value⦄ ⦃x : α⦄, c.ofJson v = .ok x → turn.at? v = some w →
      ∃ y, part? x = some y ∧ c'.ofJson w = .ok y ∧
        ∃ g : β → α, g y = x ∧ ∀ w', c.ofJson (turn.put w' v) = g <$> c'.ofJson w') :
    c.Focus [turn] c' part? := by
  intro v w x hread hat
  have hturn : turn.at? v = some w := by simpa [Route.at?] using hat
  simpa [Route.put, hturn] using h hread hturn

/-- From one part on to a part of it. -/
theorem append {route route' : Route} {part? : α → Option β} {part?' : β → Option γ}
    (h : c.Focus route c' part?) (h' : c'.Focus route' c'' part?') :
    c.Focus (route ++ route') c'' fun x => part? x >>= part?' := by
  intro v w x hread hat
  rw [Route.at?_append] at hat
  obtain ⟨u, hu, hw⟩ := Option.bind_eq_some_iff.mp hat
  obtain ⟨y, hy, hread', g, hg, hput⟩ := h hread hu
  obtain ⟨z, hz, hread'', g', hg', hput'⟩ := h' hread' hw
  refine ⟨z, by simp [hy, hz], hread'', g ∘ g', by rw [Function.comp, hg', hg], fun w' => ?_⟩
  rw [Route.put_append hu, hput, hput', ← comp_map]

end Codec.Focus

/-! ### Items of lists -/

namespace Codec

variable {α : Type} {c : Codec α}

theorem exchange_item {w : Value} : ∀ {vs : List Value} {xs : List α} {index : ℕ},
    vs.mapM c.ofJson = .ok xs → vs[index]? = some w → ∃ y, xs[index]? = some y ∧ c.ofJson w = .ok y ∧
      ∀ w', (vs.set index w').mapM c.ofJson = xs.set index <$> c.ofJson w'
  | v :: vs, xs, index, hread, hat => by
    rw [List.mapM_cons] at hread
    obtain ⟨y, hy, hread⟩ := bind_eq_ok hread
    obtain ⟨ys, hys, hread⟩ := bind_eq_ok hread
    obtain rfl := Except.ok.inj hread
    cases index with
    | zero =>
      obtain rfl := Option.some.inj hat
      refine ⟨y, rfl, hy, fun w' => ?_⟩
      rw [List.set_cons_zero, List.mapM_cons, hys]
      cases c.ofJson w' <;> rfl
    | succ index =>
      obtain ⟨z, hz, hw, hset⟩ := exchange_item hys hat
      refine ⟨z, hz, hw, fun w' => ?_⟩
      rw [List.set_cons_succ, List.mapM_cons, hy, hset]
      cases c.ofJson w' <;> rfl

theorem focus_item (index : ℕ) : (listOf c).Focus [.item index] c fun xs => xs[index]? := by
  refine .of_turn fun v w xs hread hat => ?_
  cases v with
  | list vs closed =>
    obtain ⟨ys, hys, hclosed⟩ := bind_eq_ok hread
    cases closed with
    | false => cases hclosed
    | true =>
      obtain rfl := Except.ok.inj hclosed
      obtain ⟨y, hy, hw, hset⟩ := exchange_item hys hat
      refine ⟨y, hy, hw, ys.set index, ?_, fun w' => ?_⟩
      · obtain ⟨hlt, rfl⟩ := List.getElem?_eq_some_iff.mp hy
        exact List.set_getElem_self hlt
      · simp only [Turn.put, listOf, hset]
        cases c.ofJson w' <;> rfl
  | _ => cases hat

end Codec

/-! ### Fields of records -/

namespace RecordType

variable {ρ : Type} {t : RecordType ρ} {rows : List (Row ρ)}

/-- A list is read as a record only if it is no longer than the fields and all those have defaults for
    which there is no item. -/
theorem readItems_ok {closed : Bool} {y : ρ} : ∀ {fs : List (Field ρ)} {vs : List Value} {index : ℕ}
    {x : ρ}, t.readItems closed index x fs vs = .ok y → closed = true ∧ vs.length ≤ fs.length ∧
      ∀ f ∈ fs.drop vs.length, f.required = false
  | f :: fs, v :: vs, index, x, h => by
    rw [readItems] at h
    obtain ⟨z, -, h⟩ := Codec.bind_eq_ok h
    simpa using readItems_ok h
  | f :: fs, [], index, x, h => by
    rw [readItems] at h
    split at h
    · cases h
    · split at h
      · cases h
      · rename_i hrequired
        obtain ⟨hclosed, -, hrest⟩ := readItems_ok h
        exact ⟨hclosed, Nat.zero_le _,
          List.forall_mem_cons.mpr ⟨by simpa using hrequired, by simpa using hrest⟩⟩
  | [], [], index, x, h => by
    rw [readItems] at h
    split at h
    · exact ⟨‹_›, Nat.le_refl _, by simp⟩
    · cases h
  | [], v :: vs, index, x, h => by cases h

/-- The items of such a list are put into the first fields. -/
theorem readItems_eq : ∀ {fs : List (Field ρ)} {vs : List Value} (index : ℕ) (x : ρ),
    vs.length ≤ fs.length → (∀ f ∈ fs.drop vs.length, f.required = false) →
    t.readItems true index x fs vs = Field.fill (fs.zip vs) x
  | f :: fs, v :: vs, index, x, hlength, hrest => by
    rw [readItems, List.zip_cons_cons, Field.fill]
    cases f.ofJson v x with
    | error m => rfl
    | ok z => exact readItems_eq (index + 1) z (Nat.le_of_succ_le_succ hlength) (by simpa using hrest)
  | f :: fs, [], index, x, _, hrest => by
    obtain ⟨hf, hrest⟩ := List.forall_mem_cons.mp hrest
    simp only [readItems, hf, Bool.not_true, Bool.false_eq_true, if_false]
    rw [readItems_eq (index + 1) x (Nat.zero_le _) (by simpa using hrest), List.zip_nil_right,
      List.zip_nil_right]
  | [], [], index, x, _, _ => rfl

theorem zip_fields_sublist : ∀ (fs : List (Field ρ)) (vs : List Value),
    ((fs.zip vs).map (·.1)).Sublist fs
  | [], _ => by simp
  | _ :: _, [] => by simp
  | f :: fs, _ :: vs => (zip_fields_sublist fs vs).cons_cons f

/-- Two lists side by side, with an item of the second one exchanged. -/
theorem zip_set {f : Field ρ} : ∀ {fs : List (Field ρ)} {vs : List Value} {n : ℕ} {v : Value},
    fs[n]? = some f → vs[n]? = some v → ∃ before after, fs.zip vs = before ++ (f, v) :: after ∧
      ∀ w, fs.zip (vs.set n w) = before ++ (f, w) :: after
  | f :: fs, v :: vs, 0, _, hf, hv => by
    obtain rfl := Option.some.inj hf
    obtain rfl := Option.some.inj hv
    exact ⟨[], fs.zip vs, rfl, fun w => rfl⟩
  | f :: fs, v :: vs, n + 1, _, hf, hv => by
    rw [List.getElem?_cons_succ] at hf hv
    obtain ⟨before, after, hzip, hset⟩ := zip_set hf hv
    exact ⟨(f, v) :: before, after, by simp [hzip], fun w => by simp [hset]⟩

namespace Described

variable (h : t.Described rows)

include h

/-- A member of an object. -/
theorem exchange_member {ms : List (String × Value)} {ending : Ending Value} {v : Value} {r : Row ρ}
    {x : ρ} (hr : r ∈ rows) (hread : t.ofMembers ms ending = .ok x)
    (hat : ms.lookup r.name = some v) :
    r.codec.ofJson v = .ok (r.get x) ∧ ∃ g : r.β → ρ, g (r.get x) = x ∧
      ∀ w, t.ofMembers (exchange r.name w ms) ending = g <$> r.codec.ofJson w := by
  obtain ⟨rfl, hallows⟩ := allows_of_ofMembers hread
  obtain ⟨f, hf, hshows⟩ := h.exists_field hr
  obtain ⟨before, after, rfl, hexchange⟩ := exists_exchange hat
  have hfield : t.field? r.name = some f := hshows.name ▸ field?_of_mem h.fieldNames_nodup hf
  have hfill (w : Value) : t.ofMembers (before ++ (r.name, w) :: after) .closed =
      Field.fill (t.pairs before ++ (f, w) :: t.pairs after) t.blank := by
    rw [ofMembers_eq (by simpa using hallows), pairs_append, pairs_cons hfield]
  simp only [hexchange]
  simp only [hfill] at hread ⊢
  have hpairs : t.pairs (before ++ (r.name, v) :: after) =
      t.pairs before ++ (f, v) :: t.pairs after := by rw [pairs_append, pairs_cons hfield]
  refine h.fill_exchange (fun p hp => (mem_pairs (hpairs ▸ hp)).1) ?_ hr hshows hread
  rw [← hpairs, pairs_names (List.forall_mem_map.mp hallows.known)]
  exact hallows.once

/-- An item of a list. -/
theorem exchange_position {vs : List Value} {closed : Bool} {n : ℕ} {v : Value} {r : Row ρ} {x : ρ}
    (hr : rows[n]? = some r) (hread : t.readItems closed 0 t.blank t.fields vs = .ok x)
    (hat : vs[n]? = some v) :
    r.codec.ofJson v = .ok (r.get x) ∧ ∃ g : r.β → ρ, g (r.get x) = x ∧
      ∀ w, t.readItems closed 0 t.blank t.fields (vs.set n w) = g <$> r.codec.ofJson w := by
  obtain ⟨rfl, hlength, hrest⟩ := readItems_ok hread
  obtain ⟨f, hf, hshows⟩ := h.field_at hr
  obtain ⟨before, after, hzip, hset⟩ := zip_set hf hat
  have hfill (w : Value) : t.readItems true 0 t.blank t.fields (vs.set n w) =
      Field.fill (before ++ (f, w) :: after) t.blank := by
    rw [readItems_eq 0 t.blank (by simpa using hlength) (by simpa using hrest), hset]
  have hfields := zip_fields_sublist t.fields vs
  rw [readItems_eq 0 t.blank hlength hrest, hzip] at hread
  simp only [hfill]
  rw [hzip] at hfields
  refine h.fill_exchange (fun p hp => hfields.subset (List.mem_map_of_mem hp)) ?_
    (List.mem_of_getElem? hr) hshows hread
  simpa [Function.comp_def] using (hfields.map Field.name).nodup h.fieldNames_nodup

theorem focus_field {β : Type} {n : ℕ} {name : String} {c : Codec β} {get : ρ → β}
    {default : Option β} (hr : rows[n]? = some ⟨name, c, get, default⟩) :
    t.codec.Focus [.field name n] c fun x => some (get x) := by
  refine .of_turn fun v w x hread hat => ?_
  cases v with
  | record ms ending =>
    obtain ⟨hw, hexchange⟩ := h.exchange_member (List.mem_of_getElem? hr) hread hat
    exact ⟨_, rfl, hw, hexchange⟩
  | list vs closed =>
    obtain ⟨hw, hexchange⟩ := h.exchange_position hr hread hat
    exact ⟨_, rfl, hw, hexchange⟩
  | _ => cases hat

/-- Where the field is a list, one item of it. -/
theorem focus_entry {β : Type} {n : ℕ} {name : String} {c : Codec β} {get : ρ → List β}
    {default : Option (List β)} (hr : rows[n]? = some ⟨name, .listOf c, get, default⟩) (i : ℕ) :
    t.codec.Focus [.field name n, .item i] c fun x => (get x)[i]? :=
  (h.focus_field hr).append (Codec.focus_item i)

end Described

end RecordType

end Schematic
