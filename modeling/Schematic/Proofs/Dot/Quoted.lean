import Mathlib.Data.List.DropRight
import Schematic.Dot.Text

/-! Quoted strings, read back. A reader of DOT takes every backslash together with the character behind
    it. So the one that is written before a double quote hides it only where it is not itself the
    partner of another backslash; and what hides a double quote of a text, or its end, is counted in
    the run of backslashes before it. -/

namespace Schematic.Dot

/-! ### Reading -/

/-- Reads on in a quoted string, up to its closing quote. After a backslash (`true`) the next character
    is read with it, whatever it is; else a double quote closes the string. Gives what is inside, from
    here on, and what comes behind the closing quote. -/
def readQuoted : Bool → List Char → Option (List Char × List Char)
  | _, [] => none
  | true, c :: rest => (readQuoted false rest).map (Prod.map (c :: ·) id)
  | false, c :: rest =>
    if c = '"' then some ([], rest) else (readQuoted (c = '\\') rest).map (Prod.map (c :: ·) id)

/-- The string that begins with `inside` is closed right behind it, by the quote that stands there. -/
def Closes (inside after : List Char) : Prop :=
  readQuoted false (inside ++ '"' :: after) = some (inside, after)

/-- Every `\"` as a double quote again. -/
def restoreQuotes : List Char → List Char
  | '\\' :: '"' :: rest => '"' :: restoreQuotes rest
  | c :: rest => c :: restoreQuotes rest
  | [] => []

/-- A text as it is written between quotes. -/
def escaped (cs : List Char) : List Char := cs.flatMap fun c => if c = '"' then ['\\', '"'] else [c]

/-- An odd number of backslashes ends the text, so that the last one waits for another character. -/
def Dangles (cs : List Char) : Prop := (cs.rtakeWhile (· = '\\')).length % 2 = 1

/-- A double quote stands behind an odd number of backslashes. -/
def Breaks (cs : List Char) : Prop := ∃ before after, cs = before ++ '"' :: after ∧ Dangles before

instance decidableDangles (cs : List Char) : Decidable (Dangles cs) :=
  inferInstanceAs (Decidable (_ = 1))

variable {cs ds before : List Char}

@[simp] theorem toList_escapeQuotes (s : String) : (escapeQuotes s).toList = escaped s.toList := by
  rw [escapeQuotes, String.toList_ofList, escaped]

@[simp] theorem escaped_nil : escaped [] = [] := rfl

theorem escaped_quote (cs : List Char) : escaped ('"' :: cs) = '\\' :: '"' :: escaped cs := rfl

theorem escaped_cons {c : Char} (hc : c ≠ '"') (cs : List Char) :
    escaped (c :: cs) = c :: escaped cs := by
  rw [escaped, List.flatMap_cons, if_neg hc]
  rfl

@[simp] theorem escaped_append (cs ds : List Char) : escaped (cs ++ ds) = escaped cs ++ escaped ds :=
  List.flatMap_append

theorem escaped_padded (cs : List Char) :
    ' ' :: escaped cs ++ [' '] = escaped (' ' :: cs ++ [' ']) := by
  rw [escaped_append, escaped_cons (by decide)]
  rfl

theorem not_dangles_nil : ¬ Dangles [] := by decide

/-- A backslash takes up the one that waits, or waits itself; nothing waits behind any other
    character. -/
theorem dangles_concat (cs : List Char) (c : Char) :
    Dangles (cs ++ [c]) ↔ c = '\\' ∧ ¬ Dangles cs := by
  rw [Dangles, List.rtakeWhile_concat, Dangles]
  by_cases hc : c = '\\'
  · simp only [hc, decide_true, if_true, List.length_append, List.length_singleton, true_and]
    omega
  · simp [hc]

/-- What is put before a text that is not empty does not count among the backslashes at its end, unless
    it is one itself. -/
theorem dangles_cons {c : Char} (hc : c ≠ '\\') (cs : List Char) : Dangles (c :: cs) ↔ Dangles cs := by
  induction cs using List.reverseRecOn with
  | nil =>
    have h := dangles_concat [] c
    simp only [List.nil_append, hc, false_and, iff_false] at h
    exact iff_of_false h not_dangles_nil
  | append_singleton cs d ih => rw [← List.cons_append, dangles_concat, dangles_concat, ih]

theorem mem_of_dangles (h : Dangles cs) : '\\' ∈ cs := by
  rw [Dangles] at h
  obtain ⟨c, hc⟩ := List.exists_mem_of_length_pos (l := cs.rtakeWhile (· = '\\')) (by omega)
  have hslash : c = '\\' := by simpa using List.mem_rtakeWhile_imp hc
  rw [← hslash]
  exact (List.rtakeWhile_suffix _ cs).subset hc

/-- Without a backslash nothing can go wrong, however many double quotes there are. -/
theorem not_breaks_of_not_mem (h : '\\' ∉ cs) : ¬ Breaks cs ∧ ¬ Dangles cs := by
  refine ⟨?_, fun hdangles => h (mem_of_dangles hdangles)⟩
  rintro ⟨before, after, rfl, hdangles⟩
  exact h (List.mem_append_left _ (mem_of_dangles hdangles))

theorem breaks_iff : Breaks cs ↔ ∃ n < cs.length, cs[n]? = some '"' ∧ Dangles (cs.take n) := by
  constructor
  · rintro ⟨before, after, rfl, hdangles⟩
    exact ⟨before.length, by simp, by simp, by simpa using hdangles⟩
  · rintro ⟨n, hn, hquote, hdangles⟩
    obtain ⟨_, hget⟩ := List.getElem?_eq_some_iff.mp hquote
    refine ⟨cs.take n, cs.drop (n + 1), ?_, hdangles⟩
    rw [← hget, List.getElem_cons_drop, List.take_append_drop]

instance decidableBreaks (cs : List Char) : Decidable (Breaks cs) :=
  decidable_of_iff _ breaks_iff.symm

/-- Where a text breaks, it breaks for the first time. -/
theorem Breaks.first (h : Breaks cs) :
    ∃ before after, cs = before ++ '"' :: after ∧ Dangles before ∧ ¬ Breaks before := by
  obtain ⟨before, after, rfl, hdangles⟩ := h
  induction hn : before.length using Nat.strongRecOn generalizing before after with
  | ind n ih =>
    by_cases hearlier : Breaks before
    · obtain ⟨front, middle, rfl, hfront⟩ := hearlier
      have hlt : front.length < n := by
        rw [← hn, List.length_append, List.length_cons]
        omega
      obtain ⟨p, q, hpq, hp⟩ := ih _ hlt front (middle ++ '"' :: after) hfront rfl
      exact ⟨p, q, by rw [← hpq, List.append_assoc, List.cons_append], hp⟩
    · exact ⟨before, after, rfl, hdangles, hearlier⟩

/-- Blanks around a text change nothing about its double quotes. -/
theorem breaks_padded : Breaks (' ' :: cs ++ [' ']) ↔ Breaks cs := by
  constructor
  · rintro ⟨before, after, h, hdangles⟩
    cases before with
    | nil => exact absurd hdangles not_dangles_nil
    | cons c before =>
      rw [List.cons_append, List.cons_append, List.cons.injEq] at h
      obtain ⟨rfl, h⟩ := h
      rw [dangles_cons (by decide)] at hdangles
      cases after using List.reverseRecOn with
      | nil => exact absurd (List.append_inj_right' h rfl) (by decide)
      | append_singleton after d =>
        rw [← List.cons_append, ← List.append_assoc] at h
        exact ⟨before, after, List.append_inj_left' h rfl, hdangles⟩
  · rintro ⟨before, after, rfl, hdangles⟩
    refine ⟨' ' :: before, after ++ [' '], by simp, ?_⟩
    rwa [dangles_cons (by decide)]

/-! ### Written and read -/

theorem readQuoted_cons {c : Char} (hc : c ≠ '"') (before rest : List Char) :
    readQuoted (Dangles before) (c :: rest) =
      (readQuoted (Dangles (before ++ [c])) rest).map (Prod.map (c :: ·) id) := by
  by_cases h : Dangles before
  · have hnext : ¬ Dangles (before ++ [c]) := fun hd => ((dangles_concat before c).mp hd).2 h
    rw [decide_eq_true h, decide_eq_false hnext, readQuoted]
  · have hnext : decide (Dangles (before ++ [c])) = decide (c = '\\') := by
      simp [dangles_concat, h]
    rw [decide_eq_false h, hnext, readQuoted, if_neg hc]

/-- A hidden double quote is read with the backslash that was written before it. -/
theorem readQuoted_quote (rest : List Char) : readQuoted false ('\\' :: '"' :: rest) =
    (readQuoted false rest).map (Prod.map (['\\', '"'] ++ ·) id) := by
  rw [readQuoted, if_neg (by decide), decide_eq_true rfl, readQuoted, Option.map_map]
  rfl

/-- A text that does not break is read to its end; behind it the reader waits if the text leaves it
    waiting. What was read before counts for the run of backslashes that the text begins with. -/
theorem readQuoted_escaped (rest : List Char) : ∀ (cs before : List Char),
    (∀ p q, cs = p ++ '"' :: q → ¬ Dangles (before ++ p)) →
    readQuoted (Dangles before) (escaped cs ++ rest) =
      (readQuoted (Dangles (before ++ cs)) rest).map (Prod.map (escaped cs ++ ·) id)
  | [], before, _ => by
    rw [List.append_nil]
    exact (congrFun Option.map_id _).symm
  | c :: cs, before, h => by
    have hrest : ∀ p q, cs = p ++ '"' :: q → ¬ Dangles (before ++ [c] ++ p) := by
      intro p q hpq
      rw [List.append_assoc]
      exact h (c :: p) q (by rw [hpq, List.cons_append])
    have ih := readQuoted_escaped rest cs (before ++ [c]) hrest
    rw [List.append_assoc, List.singleton_append] at ih
    by_cases hc : c = '"'
    · subst hc
      have hbefore : ¬ Dangles before := by simpa using h [] cs rfl
      have hnext : ¬ Dangles (before ++ ['"']) := fun hd => absurd ((dangles_concat _ _).mp hd).1 (by decide)
      rw [decide_eq_false hnext] at ih
      rw [escaped_quote, List.cons_append, List.cons_append, decide_eq_false hbefore,
        readQuoted_quote, ih, Option.map_map]
      rfl
    · rw [escaped_cons hc, List.cons_append, readQuoted_cons hc, ih, Option.map_map]
      rfl

/-- A text that breaks closes its string: the backslash before the double quote is the partner of
    another one, and all that comes behind is outside. -/
theorem readQuoted_breaks {p q : List Char} (hdangles : Dangles p) (hfirst : ¬ Breaks p)
    (rest : List Char) :
    readQuoted false (escaped (p ++ '"' :: q) ++ rest) =
      some (escaped p ++ ['\\'], escaped q ++ rest) := by
  have hread := readQuoted_escaped (escaped ('"' :: q) ++ rest) p [] fun p' q' hp' hd =>
    hfirst ⟨p', q', hp', hd⟩
  rw [decide_eq_false not_dangles_nil, List.nil_append, decide_eq_true hdangles] at hread
  rw [escaped_append, List.append_assoc, hread, escaped_quote, List.cons_append, List.cons_append,
    readQuoted, readQuoted, if_pos rfl]
  rfl

/-- Between quotes, a text closes its string in the right place just when it does not break, and does
    not end in an odd number of backslashes, of which the last one would hide the closing quote. -/
theorem closes_escaped_iff {after : List Char} :
    Closes (escaped cs) after ↔ ¬ Breaks cs ∧ ¬ Dangles cs := by
  have hread (h : ¬ Breaks cs) := readQuoted_escaped ('"' :: after) cs [] fun p q hpq hd =>
    h ⟨p, q, hpq, hd⟩
  simp only [decide_eq_false not_dangles_nil, List.nil_append] at hread
  rw [Closes]
  constructor
  · intro hcloses
    have hwhole : ¬ Breaks cs := by
      intro hbreaks
      obtain ⟨p, q, rfl, hdangles, hfirst⟩ := hbreaks.first
      rw [readQuoted_breaks hdangles hfirst] at hcloses
      have hinside := congrArg List.length (congrArg Prod.fst (Option.some.inj hcloses))
      rw [escaped_append, escaped_quote] at hinside
      simp at hinside
    refine ⟨hwhole, fun hdangles => ?_⟩
    rw [hread hwhole, decide_eq_true hdangles, readQuoted] at hcloses
    cases hafter : readQuoted false after with
    | none => rw [hafter] at hcloses; cases hcloses
    | some r =>
      rw [hafter] at hcloses
      have hinside := congrArg List.length (congrArg Prod.fst (Option.some.inj hcloses))
      simp at hinside
  · rintro ⟨hwhole, hdangles⟩
    rw [hread hwhole, decide_eq_false hdangles, readQuoted, if_pos rfl]
    simp

/-- With blanks around it, a text can only go wrong at its double quotes. -/
theorem closes_padded_iff {after : List Char} :
    Closes (' ' :: escaped cs ++ [' ']) after ↔ ¬ Breaks cs := by
  have hend : ¬ Dangles (' ' :: cs ++ [' ']) := fun hd =>
    absurd ((dangles_concat _ _).mp hd).1 (by decide)
  rw [escaped_padded, closes_escaped_iff, breaks_padded, and_iff_left hend]

/-! ### Written and restored -/

theorem restoreQuotes_cons {c : Char} {cs : List Char} (h : cs.head? ≠ some '"') :
    restoreQuotes (c :: cs) = c :: restoreQuotes cs := by
  refine restoreQuotes.eq_2 c cs fun rest _ hrest => h ?_
  rw [hrest]
  rfl

/-- No escaped text begins with a double quote. -/
theorem head?_escaped (cs : List Char) : (escaped cs).head? ≠ some '"' := by
  cases cs with
  | nil => simp
  | cons c cs =>
    by_cases hc : c = '"'
    · subst hc
      rw [escaped_quote, List.head?_cons]
      decide
    · rw [escaped_cons hc, List.head?_cons]
      simpa using hc

/-- Whatever the text, it comes back when its double quotes are restored. -/
theorem restoreQuotes_escaped (cs : List Char) : restoreQuotes (escaped cs) = cs := by
  induction cs with
  | nil => rfl
  | cons c cs ih =>
    by_cases hc : c = '"'
    · subst hc
      rw [escaped_quote, restoreQuotes, ih]
    · rw [escaped_cons hc, restoreQuotes_cons (head?_escaped cs), ih]

end Schematic.Dot
