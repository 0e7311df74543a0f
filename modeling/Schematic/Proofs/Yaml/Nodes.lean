import Schematic.Proofs.Json.RoundTrip
import Schematic.Yaml.Node

/-! A plain JSON value as YAML: the node that it is, the tokens that its text consists of, and that
    the node is what is read from the tokens. -/

namespace Schematic

namespace Json

open Yaml

mutual

/-- The node that a value is in YAML: texts are quoted, words are not. -/
def Value.node : Value → Yaml.Node
  | .broken => .void
  | .null => .scalar "null" .plain none
  | .bool true => .scalar "true" .plain none
  | .bool false => .scalar "false" .plain none
  | .number n => .scalar (String.ofList n.chars) .plain none
  | .text s => .scalar s .quoted none
  | .list items _ => .sequence (itemNodes items)
  | .record members _ => .mapping (memberNodes members)

def itemNodes : List Value → List Yaml.Node
  | [] => []
  | v :: vs => v.node :: itemNodes vs

def memberNodes : List (String × Value) → List (Yaml.Node × Yaml.Node)
  | [] => []
  | (key, v) :: ms => (.scalar key .quoted none, v.node) :: memberNodes ms

end

mutual

/-- The tokens of the text of a value. -/
def Value.tokens : Value → List Token
  | .broken => []
  | .null => [.scalar "null" .plain]
  | .bool true => [.scalar "true" .plain]
  | .bool false => [.scalar "false" .plain]
  | .number n => [.scalar (String.ofList n.chars) .plain]
  | .text s => [.scalar s .quoted]
  | .list items _ => .flowSequence :: (itemTokens items ++ [.flowSequenceEnd])
  | .record members _ => .flowMapping :: (memberTokens members ++ [.flowMappingEnd])

def itemTokens : List Value → List Token
  | [] => []
  | [v] => v.tokens
  | v :: vs => v.tokens ++ .flowEntry :: itemTokens vs

def memberTokens : List (String × Value) → List Token
  | [] => []
  | [(key, v)] => .key :: .scalar key .quoted :: .value :: v.tokens
  | (key, v) :: ms =>
    .key :: .scalar key .quoted :: .value :: (v.tokens ++ .flowEntry :: memberTokens ms)

end

end Json

namespace Yaml

open Json

theorem resolve_node (a : Anchors) (v : Value) : a.resolve v.node = some v.node := by
  cases v with
  | bool b => cases b <;> simp only [Value.node, Anchors.resolve]
  | _ => simp only [Value.node, Anchors.resolve]

/-! ### Reading the tokens of a value -/

/-- The tokens that values begin with. -/
inductive Token.Opens : Token → Prop where
  | scalar (text : String) (style : Style) : Opens (.scalar text style)
  | flowSequence : Opens .flowSequence
  | flowMapping : Opens .flowMapping

theorem tokens_eq_cons {v : Value} (hv : Plain v) : ∃ t ts, v.tokens = t :: ts ∧ t.Opens := by
  cases hv with
  | null => exact ⟨_, _, by rw [Value.tokens], .scalar ..⟩
  | bool b => cases b <;> exact ⟨_, _, by rw [Value.tokens], .scalar ..⟩
  | text s => exact ⟨_, _, by rw [Value.tokens], .scalar ..⟩
  | list h => exact ⟨_, _, by rw [Value.tokens], .flowSequence⟩
  | record hkeys h => exact ⟨_, _, by rw [Value.tokens], .flowMapping⟩

section

variable {block outdented : Bool} {fuel : Nat} {r : Reading} {t : Token} {ts : List Token}

/-- Before a value stand no properties. -/
theorem readNode_of_opens (ht : t.Opens) :
    readNode block outdented (fuel + 1) (r.after (t :: ts)) =
      readContent block outdented false none fuel (r.after (t :: ts)) := by
  cases ht
  all_goals
    simp only [readNode, Reading.after, Reading.properties, Option.bind_eq_bind, Option.bind_some,
      Anchors.fill, Option.isSome_none, Bool.or_self]
    exact Option.bind_fun_some _

theorem readNode_scalar (text : String) (style : Style) :
    readNode block outdented (fuel + 2) (r.after (.scalar text style :: ts)) =
      some (.scalar text style none, r.after ts) := by
  rw [readNode_of_opens (.scalar ..)]
  simp [readContent, Reading.after]

theorem readNodeUnless_of_not {ends : Token → Bool} (ht : ends t = false) :
    readNodeUnless ends block outdented (fuel + 1) (r.after (t :: ts)) =
      readNode block outdented fuel (r.after (t :: ts)) := by
  simp [readNodeUnless, Reading.after, ht]

end

/-- The node of a value is read from its tokens, with enough rounds. -/
def ReadsBack (v : Value) : Prop :=
  ∀ (block outdented : Bool) (fuel : Nat) (r : Reading) (ts : List Token),
    3 * v.tokens.length ≤ fuel →
    readNode block outdented fuel (r.after (v.tokens ++ ts)) = some (v.node, r.after ts)

/-- What stands before an item or a member: a comma, unless it is the first. -/
def comma (first : Bool) : List Token := if first then [] else [.flowEntry]

/-! #### Items -/

/-- The tokens of further items. -/
def moreItems (vs : List Value) : List Token := vs.flatMap fun v => comma false ++ v.tokens

theorem moreItems_cons (v : Value) (vs : List Value) :
    moreItems (v :: vs) = comma false ++ (v.tokens ++ moreItems vs) := by
  simp [moreItems]

theorem itemTokens_cons : ∀ (v : Value) (vs : List Value),
    itemTokens (v :: vs) = v.tokens ++ moreItems vs
  | v, [] => by simp [itemTokens, moreItems]
  | v, w :: vs => by
    rw [itemTokens, itemTokens_cons w vs, moreItems_cons]
    · rfl
    · nofun

theorem readFlowItems_item (first : Bool) {fuel : Nat} {r : Reading} {v : Value} (hv : Plain v)
    (done : List Node) {ts : List Token}
    (h : readNode false false fuel (r.after (v.tokens ++ ts)) = some (v.node, r.after ts)) :
    readFlowItems first (fuel + 1) done (r.after (comma first ++ (v.tokens ++ ts))) =
      readFlowItems false fuel (v.node :: done) (r.after ts) := by
  obtain ⟨t, us, htokens, ht⟩ := tokens_eq_cons hv
  rw [htokens, List.cons_append] at h ⊢
  simp only [Reading.after] at h
  cases first
  all_goals
    cases ht
    all_goals
      simp only [readFlowItems, comma, Reading.after, Option.bind_eq_bind, Option.bind_some, h,
        if_true, List.nil_append, Bool.false_eq_true, if_false, List.singleton_append]

theorem readFlowItems_more : ∀ (vs : List Value), (∀ v ∈ vs, Plain v) → (∀ v ∈ vs, ReadsBack v) →
    ∀ (fuel : Nat) (done : List Node) (r : Reading) (ts : List Token),
    3 * (moreItems vs).length ≤ fuel →
    readFlowItems false (fuel + 1) done (r.after (moreItems vs ++ .flowSequenceEnd :: ts)) =
      some (done.reverse ++ itemNodes vs, r.after ts)
  | [], _, _, fuel, done, r, ts, _ => by
    simp [moreItems, itemNodes, readFlowItems, Reading.after]
  | v :: vs, hplain, hread, fuel, done, r, ts, h => by
    obtain ⟨hv, hvs⟩ := List.forall_mem_cons.mp hread
    obtain ⟨hplainv, hplainvs⟩ := List.forall_mem_cons.mp hplain
    have hcomma : (comma false).length = 1 := rfl
    rw [moreItems_cons, List.length_append, List.length_append] at h
    obtain ⟨fuel, rfl⟩ : ∃ n, fuel = n + 1 := ⟨fuel - 1, by omega⟩
    have hnode := hv false false (fuel + 1) r (moreItems vs ++ .flowSequenceEnd :: ts) (by omega)
    rw [moreItems_cons, List.append_assoc, List.append_assoc, readFlowItems_item false hplainv _ hnode,
      readFlowItems_more vs hplainvs hvs fuel _ r ts (by omega)]
    simp [itemNodes]

theorem readFlowItems_tokens {vs : List Value} (hplain : ∀ v ∈ vs, Plain v)
    (hread : ∀ v ∈ vs, ReadsBack v) (fuel : Nat) (r : Reading) (ts : List Token)
    (h : 3 * (itemTokens vs).length ≤ fuel) :
    readFlowItems true (fuel + 2) [] (r.after (itemTokens vs ++ .flowSequenceEnd :: ts)) =
      some (itemNodes vs, r.after ts) := by
  cases vs with
  | nil => simp [itemTokens, itemNodes, readFlowItems, Reading.after]
  | cons v vs =>
    obtain ⟨hv, hvs⟩ := List.forall_mem_cons.mp hread
    obtain ⟨hplainv, hplainvs⟩ := List.forall_mem_cons.mp hplain
    rw [itemTokens_cons, List.length_append] at h
    have hnode := hv false false (fuel + 1) r (moreItems vs ++ .flowSequenceEnd :: ts) (by omega)
    have hstep := readFlowItems_item true hplainv [] hnode
    rw [itemTokens_cons, List.append_assoc]
    refine hstep.trans ?_
    rw [readFlowItems_more vs hplainvs hvs fuel _ r ts (by omega)]
    simp [itemNodes]

/-! #### Members -/

/-- The tokens of a key and its value. -/
def memberParts (m : String × Value) : List Token :=
  .key :: .scalar m.1 .quoted :: .value :: m.2.tokens

/-- The tokens of further members. -/
def moreMembers (ms : List (String × Value)) : List Token :=
  ms.flatMap fun m => comma false ++ memberParts m

theorem moreMembers_cons (m : String × Value) (ms : List (String × Value)) :
    moreMembers (m :: ms) = comma false ++ (memberParts m ++ moreMembers ms) := by
  simp [moreMembers]

theorem memberTokens_cons : ∀ (m : String × Value) (ms : List (String × Value)),
    memberTokens (m :: ms) = memberParts m ++ moreMembers ms
  | (key, v), [] => by simp [memberTokens, memberParts, moreMembers]
  | (key, v), m :: ms => by
    rw [memberTokens, memberTokens_cons m ms, moreMembers_cons]
    · rfl
    · nofun

theorem readFlowEntries_member (first : Bool) {fuel : Nat} {r : Reading} {m : String × Value}
    (done : List (Node × Node)) {ts : List Token}
    (hkey : readNodeUnless (fun t => t = .value || t.endsFlowPart) false false fuel
      (r.after (.scalar m.1 .quoted :: .value :: (m.2.tokens ++ ts))) =
        some (.scalar m.1 .quoted none, r.after (.value :: (m.2.tokens ++ ts))))
    (hvalue : readNodeUnless Token.endsFlowPart false false fuel (r.after (m.2.tokens ++ ts)) =
      some (m.2.node, r.after ts)) :
    readFlowEntries first (fuel + 1) done (r.after (comma first ++ (memberParts m ++ ts))) =
      readFlowEntries false fuel ((.scalar m.1 .quoted none, m.2.node) :: done) (r.after ts) := by
  simp only [Reading.after] at hkey hvalue
  cases first
  all_goals
    simp only [readFlowEntries, memberParts, comma, List.cons_append, Reading.after,
      Option.bind_eq_bind, Option.bind_some, hkey, hvalue, if_true, List.nil_append,
      Bool.false_eq_true, if_false]

theorem readNodeUnless_key {fuel : Nat} {r : Reading} (key : String) (ts : List Token) :
    readNodeUnless (fun t => t = .value || t.endsFlowPart) false false (fuel + 3)
      (r.after (.scalar key .quoted :: ts)) = some (.scalar key .quoted none, r.after ts) := by
  rw [readNodeUnless_of_not (by rfl), readNode_scalar]

theorem readNodeUnless_value {v : Value} (hv : Plain v) (hread : ReadsBack v) {fuel : Nat}
    (r : Reading) (ts : List Token) (h : 3 * v.tokens.length ≤ fuel) :
    readNodeUnless Token.endsFlowPart false false (fuel + 1) (r.after (v.tokens ++ ts)) =
      some (v.node, r.after ts) := by
  obtain ⟨t, us, htokens, ht⟩ := tokens_eq_cons hv
  have hends : Token.endsFlowPart t = false := by cases ht <;> rfl
  have hnode := hread false false fuel r ts h
  rw [htokens, List.cons_append] at hnode ⊢
  rw [readNodeUnless_of_not hends, hnode]

theorem readFlowEntries_more : ∀ (ms : List (String × Value)), (∀ m ∈ ms, Plain m.2) →
    (∀ m ∈ ms, ReadsBack m.2) →
    ∀ (fuel : Nat) (done : List (Node × Node)) (r : Reading) (ts : List Token),
    3 * (moreMembers ms).length ≤ fuel →
    readFlowEntries false (fuel + 1) done (r.after (moreMembers ms ++ .flowMappingEnd :: ts)) =
      some (done.reverse ++ memberNodes ms, r.after ts)
  | [], _, _, fuel, done, r, ts, _ => by
    simp [moreMembers, memberNodes, readFlowEntries, Reading.after]
  | m :: ms, hplain, hread, fuel, done, r, ts, h => by
    obtain ⟨hm, hms⟩ := List.forall_mem_cons.mp hread
    obtain ⟨hplainm, hplainms⟩ := List.forall_mem_cons.mp hplain
    have hcomma : (comma false).length = 1 := rfl
    rw [moreMembers_cons, List.length_append, List.length_append, memberParts, List.length_cons,
      List.length_cons, List.length_cons] at h
    obtain ⟨fuel, rfl⟩ : ∃ n, fuel = n + 3 := ⟨fuel - 3, by omega⟩
    have hvalue := readNodeUnless_value hplainm hm r (moreMembers ms ++ .flowMappingEnd :: ts)
      (by omega : 3 * m.2.tokens.length ≤ fuel + 2)
    rw [moreMembers_cons, List.append_assoc, List.append_assoc,
      readFlowEntries_member false _ (readNodeUnless_key m.1 _) hvalue,
      readFlowEntries_more ms hplainms hms (fuel + 2) _ r ts (by omega)]
    simp [memberNodes]

theorem readFlowEntries_tokens {ms : List (String × Value)} (hplain : ∀ m ∈ ms, Plain m.2)
    (hread : ∀ m ∈ ms, ReadsBack m.2) (fuel : Nat) (r : Reading) (ts : List Token)
    (h : 3 * (memberTokens ms).length ≤ fuel) :
    readFlowEntries true (fuel + 2) [] (r.after (memberTokens ms ++ .flowMappingEnd :: ts)) =
      some (memberNodes ms, r.after ts) := by
  cases ms with
  | nil => simp [memberTokens, memberNodes, readFlowEntries, Reading.after]
  | cons m ms =>
    obtain ⟨hm, hms⟩ := List.forall_mem_cons.mp hread
    obtain ⟨hplainm, hplainms⟩ := List.forall_mem_cons.mp hplain
    rw [memberTokens_cons, List.length_append, memberParts, List.length_cons, List.length_cons,
      List.length_cons] at h
    obtain ⟨fuel, rfl⟩ : ∃ n, fuel = n + 2 := ⟨fuel - 2, by omega⟩
    have hvalue := readNodeUnless_value hplainm hm r (moreMembers ms ++ .flowMappingEnd :: ts)
      (by omega : 3 * m.2.tokens.length ≤ fuel + 2)
    have hstep := readFlowEntries_member true [] (readNodeUnless_key m.1 _) hvalue
    rw [memberTokens_cons, List.append_assoc]
    refine hstep.trans ?_
    rw [readFlowEntries_more ms hplainms hms (fuel + 2) _ r ts (by omega)]
    simp [memberNodes]

/-! #### Values -/

theorem readsBack_scalar {v : Value} {text : String} {style : Style}
    (htokens : v.tokens = [.scalar text style]) (hnode : v.node = .scalar text style none) :
    ReadsBack v := by
  intro block outdented fuel r ts h
  rw [htokens, List.length_singleton] at h
  obtain ⟨fuel, rfl⟩ : ∃ n, fuel = n + 2 := ⟨fuel - 2, by omega⟩
  rw [htokens, hnode]
  exact readNode_scalar ..

/-- The node of a plain value is read from its tokens. -/
theorem readsBack {v : Value} (hv : Plain v) : ReadsBack v := by
  induction hv with
  | null => exact readsBack_scalar (by rw [Value.tokens]) (by rw [Value.node])
  | bool b => cases b <;> exact readsBack_scalar (by rw [Value.tokens]) (by rw [Value.node])
  | text s => exact readsBack_scalar (by rw [Value.tokens]) (by rw [Value.node])
  | @list items hplain ih =>
    intro block outdented fuel r ts h
    rw [Value.tokens, List.length_cons, List.length_append, List.length_singleton] at h
    obtain ⟨fuel, rfl⟩ : ∃ n, fuel = n + 4 := ⟨fuel - 4, by omega⟩
    have hitems := readFlowItems_tokens hplain ih fuel r ts (by omega)
    simp only [Reading.after] at hitems
    rw [Value.tokens, List.cons_append, List.append_assoc, readNode_of_opens .flowSequence]
    simp only [readContent, Reading.after, Option.bind_eq_bind, List.singleton_append, hitems,
      Option.bind_some, Value.node, Option.pure_def]
  | @record members hkeys hplain ih =>
    intro block outdented fuel r ts h
    rw [Value.tokens, List.length_cons, List.length_append, List.length_singleton] at h
    obtain ⟨fuel, rfl⟩ : ∃ n, fuel = n + 4 := ⟨fuel - 4, by omega⟩
    have hmembers := readFlowEntries_tokens hplain ih fuel r ts (by omega)
    simp only [Reading.after] at hmembers
    rw [Value.tokens, List.cons_append, List.append_assoc, readNode_of_opens .flowMapping]
    simp only [readContent, Reading.after, Option.bind_eq_bind, List.singleton_append, hmembers,
      Option.bind_some, Value.node, Option.pure_def]

/-- A plain value is the content of the document that has its tokens. -/
theorem readTokens_tokens {v : Value} (hv : Plain v) :
    readTokens (v.tokens ++ [.streamEnd]) = some { root := v.node } := by
  obtain ⟨t, ts, htokens, ht⟩ := tokens_eq_cons hv
  have hread := readsBack hv true false (8 * (v.tokens.length + 1) + 8)
    { handles := Handles.standard, anchors := {}, tokens := [] } [.streamEnd] (by omega)
  simp only [Reading.after] at hread
  have hend : v.tokens ++ [.streamEnd] ≠ [.streamEnd] := by
    rw [htokens]
    cases ht <;> simp
  have hstart : (v.tokens ++ [Token.streamEnd]).head?.any Token.startsDocument = false := by
    rw [htokens]
    cases ht <;> rfl
  simp only [readTokens, hend, hstart, if_false, List.length_append, List.length_singleton, hread,
    Option.bind_eq_bind, Option.bind_some, Bool.false_eq_true]
  simp

end Yaml

end Schematic
