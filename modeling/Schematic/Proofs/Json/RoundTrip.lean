import Mathlib.Tactic.SplitIfs
import Schematic.Json.Reader
import Schematic.Json.Writer

/-! Reading what was written. A value that is JSON to its end is read back from its text, whatever
    follows the text; what is read of a string is what was escaped. -/

namespace Schematic.Json

/-- A value without numbers that is JSON to its end. No key is longer than YAML lets keys be, so that
    the value can be read as YAML, too. -/
inductive Plain : Value → Prop where
  | null : Plain .null
  | bool (b : Bool) : Plain (.bool b)
  | text (s : String) : Plain (.text s)
  | list {items : List Value} : (∀ v ∈ items, Plain v) → Plain (.list items true)
  | record {members : List (String × Value)} : (∀ m ∈ members, (quoted m.1).length ≤ 1024) →
    (∀ m ∈ members, Plain m.2) → Plain (.record members .closed)

/-! ### Strings -/

theorem hexUnit?_digitChar : ∀ n < 0x20,
    hexUnit? '0' '0' (Nat.digitChar (n / 16)) (Nat.digitChar (n % 16)) = some n := by decide

theorem readString_escapedChar (done : List Char) (c : Char) (rest : List Char) :
    readString done (escapedChar c ++ rest) = readString (c :: done) rest := by
  rw [escapedChar]
  split_ifs with hquote hslash hb hf hn hr ht hcontrol
  · subst hquote; simp [readString, escaped?]
  · subst hslash; simp [readString, escaped?]
  · subst hb; simp [readString, escaped?]
  · subst hf; simp [readString, escaped?]
  · subst hn; simp [readString, escaped?]
  · subst hr; simp [readString, escaped?]
  · subst ht; simp [readString, escaped?]
  · have hlt : c.toNat < 0x20 := hcontrol
    have hlead : isLead c.toNat = false := by simp [isLead]; omega
    have htrail : isTrail c.toNat = false := by simp [isTrail]; omega
    simp [readString, hexUnit?_digitChar _ hlt, hlead, unitChar?, htrail]
  · simp [readString, hslash, hcontrol]

theorem readString_escaped (rest : List Char) : ∀ (cs done : List Char),
    readString done (escaped cs ++ '"' :: rest) = some (String.ofList (done.reverse ++ cs), rest)
  | [], done => by simp [escaped, readString]
  | c :: cs, done => by
    rw [escaped, List.flatMap_cons, List.append_assoc, readString_escapedChar]
    exact (readString_escaped rest cs (c :: done)).trans (by simp)

/-! ### Values -/

/-- A value begins with a character that is no space and closes no list. -/
theorem chars_eq_cons {v : Value} (hv : Plain v) :
    ∃ c cs, v.chars = c :: cs ∧ isSpace c = false ∧ c ≠ ']' := by
  cases hv with
  | null => exact ⟨_, _, by rw [Value.chars], by decide⟩
  | bool b => cases b <;> exact ⟨_, _, by rw [Value.chars], by decide⟩
  | text s => exact ⟨_, _, by rw [Value.chars, quoted], by decide⟩
  | list h => exact ⟨_, _, by rw [Value.chars], by decide⟩
  | record hkeys h => exact ⟨_, _, by rw [Value.chars], by decide⟩

theorem skipSpace_cons {c : Char} (h : isSpace c = false) (cs : List Char) :
    skipSpace (c :: cs) = c :: cs := by
  rw [skipSpace, List.dropWhile_cons_of_neg (by simp [h])]

/-- The text of a value is read as the value, with enough rounds. -/
def ReadsBack (v : Value) : Prop :=
  ∀ fuel rest, v.chars.length ≤ fuel → readValue (fuel + 1) (v.chars ++ rest) = (v, some rest)

theorem readItems_last {fuel : Nat} {done : List Value} {cs rest : List Char} {v : Value}
    (h : readValue fuel cs = (v, some (']' :: rest))) :
    readItems (fuel + 1) done cs = (.list (done.reverse ++ [v]) true, some rest) := by
  have hspace := skipSpace_cons (by decide : isSpace ']' = false) rest
  simp only [readItems, h, hspace, List.reverse_cons]

theorem readItems_more {fuel : Nat} {done : List Value} {cs rest : List Char} {v : Value} {c : Char}
    (h : readValue fuel cs = (v, some (',' :: c :: rest))) (hc : isSpace c = false)
    (hclose : c ≠ ']') : readItems (fuel + 1) done cs = readItems fuel (v :: done) (c :: rest) := by
  have hcomma := skipSpace_cons (by decide : isSpace ',' = false) (c :: rest)
  simp only [readItems, h, hcomma, skipSpace_cons hc]
  split
  · next hhead => exact absurd (List.cons.inj hhead).1 hclose
  · rfl

theorem readMembers_last {fuel : Nat} {done : List (String × Value)} {cs rest : List Char}
    {key : String} {v : Value} (h : readValue fuel cs = (v, some ('\x7d' :: rest))) :
    readMembers (fuel + 1) done (quoted key ++ ':' :: cs) =
      (.record (done.reverse ++ [(key, v)]) .closed, some rest) := by
  have hquote := skipSpace_cons (by decide : isSpace '"' = false)
  have hcolon := skipSpace_cons (by decide : isSpace ':' = false)
  have hclose := skipSpace_cons (by decide : isSpace '\x7d' = false)
  simp only [readMembers, quoted, List.cons_append, List.append_assoc, hquote, List.nil_append,
    readString_escaped, hcolon, h, hclose]
  simp

theorem readMembers_more {fuel : Nat} {done : List (String × Value)} {cs rest : List Char}
    {key : String} {v : Value} (h : readValue fuel cs = (v, some (',' :: rest))) :
    readMembers (fuel + 1) done (quoted key ++ ':' :: cs) =
      readMembers fuel ((key, v) :: done) rest := by
  have hquote := skipSpace_cons (by decide : isSpace '"' = false)
  have hcolon := skipSpace_cons (by decide : isSpace ':' = false)
  have hcomma := skipSpace_cons (by decide : isSpace ',' = false)
  simp only [readMembers, quoted, List.cons_append, List.append_assoc, hquote, List.nil_append,
    readString_escaped, hcolon, h, hcomma]
  simp

theorem itemChars_cons_cons (v w : Value) (vs : List Value) :
    itemChars (v :: w :: vs) = v.chars ++ ',' :: itemChars (w :: vs) := by
  rw [itemChars]
  simp

theorem memberChars_cons_cons (key : String) (v : Value) (m : String × Value)
    (ms : List (String × Value)) :
    memberChars ((key, v) :: m :: ms) =
      quoted key ++ ':' :: (v.chars ++ ',' :: memberChars (m :: ms)) := by
  rw [memberChars]
  simp

theorem itemChars_eq_cons {v : Value} (hv : Plain v) (vs : List Value) :
    ∃ c cs, itemChars (v :: vs) = c :: cs ∧ isSpace c = false ∧ c ≠ ']' := by
  obtain ⟨c, cs, hchars, hspace, hclose⟩ := chars_eq_cons hv
  cases vs with
  | nil => exact ⟨c, cs, by rw [itemChars, hchars], hspace, hclose⟩
  | cons w vs => exact ⟨c, _, by rw [itemChars_cons_cons, hchars, List.cons_append], hspace, hclose⟩

theorem readItems_chars : ∀ (vs : List Value) (v : Value), (∀ w ∈ v :: vs, Plain w) →
    (∀ w ∈ v :: vs, ReadsBack w) → ∀ (fuel : Nat) (done : List Value) (rest : List Char),
    (itemChars (v :: vs)).length ≤ fuel →
    readItems (fuel + 2) done (itemChars (v :: vs) ++ ']' :: rest) =
      (.list (done.reverse ++ v :: vs) true, some rest)
  | [], v, _, hread, fuel, done, rest, h => by
    rw [itemChars] at h ⊢
    exact readItems_last (hread v (by simp) fuel _ h)
  | w :: vs, v, hplain, hread, fuel, done, rest, h => by
    obtain ⟨hv, hvs⟩ := List.forall_mem_cons.mp hread
    obtain ⟨-, hplain⟩ := List.forall_mem_cons.mp hplain
    obtain ⟨c, cs, hnext, hspace, hclose⟩ := itemChars_eq_cons (hplain w (by simp)) vs
    rw [itemChars_cons_cons, List.length_append, List.length_cons] at h
    obtain ⟨fuel, rfl⟩ : ∃ n, fuel = n + 1 := ⟨fuel - 1, by omega⟩
    replace hv := hv (fuel + 1) (',' :: (itemChars (w :: vs) ++ ']' :: rest)) (by omega)
    have hih := readItems_chars vs w hplain hvs fuel (v :: done) rest (by omega)
    rw [hnext, List.cons_append] at hv
    rw [itemChars_cons_cons, List.append_assoc, List.cons_append, hnext, List.cons_append,
      readItems_more hv hspace hclose, ← List.cons_append, ← hnext, hih]
    simp

theorem memberChars_eq_cons (m : String × Value) (ms : List (String × Value)) :
    ∃ cs, memberChars (m :: ms) = '"' :: cs := by
  cases ms with
  | nil => exact ⟨_, by rw [memberChars, quoted, List.cons_append]⟩
  | cons n ms => exact ⟨_, by rw [memberChars_cons_cons, quoted, List.cons_append]⟩

theorem readMembers_chars : ∀ (ms : List (String × Value)) (m : String × Value),
    (∀ n ∈ m :: ms, ReadsBack n.2) →
    ∀ (fuel : Nat) (done : List (String × Value)) (rest : List Char),
    (memberChars (m :: ms)).length ≤ fuel →
    readMembers (fuel + 2) done (memberChars (m :: ms) ++ '\x7d' :: rest) =
      (.record (done.reverse ++ m :: ms) .closed, some rest)
  | [], (key, v), hread, fuel, done, rest, h => by
    have hv : ReadsBack v := hread (key, v) (by simp)
    rw [memberChars, List.length_append, List.length_cons] at h
    rw [memberChars, List.append_assoc, List.cons_append]
    exact readMembers_last (hv fuel _ (by omega))
  | m :: ms, (key, v), hread, fuel, done, rest, h => by
    obtain ⟨hv, hms⟩ := List.forall_mem_cons.mp hread
    rw [memberChars_cons_cons, List.length_append, List.length_cons, List.length_append,
      List.length_cons] at h
    obtain ⟨fuel, rfl⟩ : ∃ n, fuel = n + 1 := ⟨fuel - 1, by omega⟩
    replace hv := hv (fuel + 1) (',' :: (memberChars (m :: ms) ++ '\x7d' :: rest))
      (by dsimp only; omega)
    have hih := readMembers_chars ms m hms fuel ((key, v) :: done) rest (by omega)
    rw [memberChars_cons_cons, List.append_assoc, List.cons_append, List.append_assoc,
      List.cons_append, readMembers_more hv, hih]
    simp

theorem readValue_list {fuel : Nat} {c : Char} (hc : isSpace c = false) (hclose : c ≠ ']')
    (cs : List Char) : readValue (fuel + 1) ('[' :: c :: cs) = readItems fuel [] (c :: cs) := by
  have hopen := skipSpace_cons (by decide : isSpace '[' = false) (c :: cs)
  simp only [readValue, hopen, skipSpace_cons hc]
  split
  · next hhead => exact absurd (List.cons.inj hhead).1 hclose
  · rfl

theorem readValue_record (fuel : Nat) (cs : List Char) :
    readValue (fuel + 1) ('\x7b' :: '"' :: cs) = readMembers fuel [] ('"' :: cs) := by
  have hopen := skipSpace_cons (by decide : isSpace '\x7b' = false)
  have hquote := skipSpace_cons (by decide : isSpace '"' = false)
  simp only [readValue, hopen, hquote]
  rfl

/-- A plain value is read back from its text. -/
theorem Plain.readsBack {v : Value} (hv : Plain v) : ReadsBack v := by
  induction hv with
  | null =>
    intro fuel rest h
    simp [Value.chars, readValue, skipSpace, isSpace, readScalar, readWord]
  | bool b =>
    intro fuel rest h
    cases b <;> simp [Value.chars, readValue, skipSpace, isSpace, readScalar, readWord]
  | text s =>
    intro fuel rest h
    simp [Value.chars, quoted, readValue, skipSpace, isSpace, readScalar, readString_escaped]
  | @list items hplain ih =>
    intro fuel rest h
    cases items with
    | nil => simp [Value.chars, itemChars, readValue, skipSpace, isSpace]
    | cons v vs =>
      obtain ⟨c, cs, hfirst, hspace, hclose⟩ := itemChars_eq_cons (hplain v (by simp)) vs
      rw [Value.chars, List.length_cons, List.length_append, List.length_singleton] at h
      obtain ⟨fuel, rfl⟩ : ∃ n, fuel = n + 2 := ⟨fuel - 2, by omega⟩
      have hitems := readItems_chars vs v hplain ih fuel [] rest (by omega)
      rw [hfirst, List.cons_append] at hitems
      rw [Value.chars, List.cons_append, List.append_assoc, hfirst, List.cons_append,
        List.singleton_append, readValue_list hspace hclose, hitems]
      rfl
  | @record members hkeys hplain ih =>
    intro fuel rest h
    cases members with
    | nil => simp [Value.chars, memberChars, readValue, skipSpace, isSpace]
    | cons m ms =>
      obtain ⟨cs, hfirst⟩ := memberChars_eq_cons m ms
      rw [Value.chars, List.length_cons, List.length_append, List.length_singleton] at h
      obtain ⟨fuel, rfl⟩ : ∃ n, fuel = n + 2 := ⟨fuel - 2, by omega⟩
      have hmembers := readMembers_chars ms m ih fuel [] rest (by omega)
      rw [hfirst, List.cons_append] at hmembers
      rw [Value.chars, List.cons_append, List.append_assoc, hfirst, List.cons_append,
        List.singleton_append, readValue_record, hmembers]
      rfl

/-- The text of a plain value is read as the value, to its end. -/
theorem readText_chars {v : Value} (hv : Plain v) :
    readText (String.ofList v.chars) = (v, true) := by
  have h := hv.readsBack v.chars.length [] (Nat.le_refl _)
  rw [List.append_nil] at h
  rw [readText, String.length_ofList, String.toList_ofList, h]
  rfl

end Schematic.Json
