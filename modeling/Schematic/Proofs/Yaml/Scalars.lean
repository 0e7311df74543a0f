import Mathlib.Tactic.SplitIfs
import Schematic.Json.Writer
import Schematic.Yaml.Scalar

/-! Scalars as JSON writes them, read as YAML: strings without breaks, and words between brackets. -/

namespace Schematic.Yaml

open Json

namespace Cursor

theorem skip_eq (c : Cursor) : c.skip = c.advance 1 := by
  simp [skip, advance]

theorem advance_advance (c : Cursor) (m n : Nat) :
    (c.advance m).advance n = c.advance (m + n) := by
  simp [advance, Nat.add_assoc]

theorem advance_zero (c : Cursor) : c.advance 0 = c := by
  simp [advance]

theorem rest_advance {c : Cursor} {cs rest : List Char} (h : c.rest = cs ++ rest) :
    (c.advance cs.length).rest = rest := by
  simp [advance, h]

theorem readBreak?_eq_none {c : Cursor} {y : Char} {r : List Char} (h : c.rest = y :: r)
    (hy : isBreak y = false) : c.readBreak? = none := by
  simp only [isBreak, Bool.or_eq_false_iff] at hy
  rw [readBreak?, h]
  split
  · next hhead =>
    obtain ⟨rfl, -⟩ := List.cons.inj hhead
    exact absurd hy.1 (by decide)
  · next hhead =>
    obtain ⟨rfl, -⟩ := List.cons.inj hhead
    simp [hy.1, hy.2]
  · rfl

/-- Marks stand at the start of a line only. -/
theorem atDocumentMark_of_column {c : Cursor} (h : c.column ≠ 0) : c.atDocumentMark = false := by
  simp [atDocumentMark, atMark, h]

end Cursor

/-! ### Strings -/

section

variable {fuel : Nat} {f : Folding} {c : Cursor} {x y : Char} {r : List Char}

theorem readQuotedWord_escape {d : Cursor} (h : c.rest = '\\' :: y :: r) (hy : isBreak y = false)
    (hread : readEscape? (c.advance 1) = some (x, d)) :
    readQuotedWord '"' (fuel + 1) f c = readQuotedWord '"' fuel (f.push x) d := by
  have hspacing : isSpacing '\\' = false := by decide
  have hbreak : isBreak '\\' = false := by decide
  simp [readQuotedWord, h, hy, hspacing, hbreak, Cursor.skip_eq, hread]

theorem readQuotedWord_letter (h : c.rest = '\\' :: y :: r) (hy : isBreak y = false)
    (hcode : y ∉ ['x', 'u', 'U']) (hx : escapedChar? y = some x) :
    readQuotedWord '"' (fuel + 1) f c = readQuotedWord '"' fuel (f.push x) (c.advance 2) := by
  refine readQuotedWord_escape h hy ?_
  have hrest : (c.advance 1).rest = y :: r := by simp [Cursor.advance, h]
  simp only [List.mem_cons, List.not_mem_nil, or_false, not_or] at hcode
  simp [readEscape?, hrest, hcode, hx, Cursor.skip_eq, Cursor.advance_advance]

theorem ofHex?_digitChar : ∀ n < 0x20,
    ofHex? ['0', '0', Nat.digitChar (n / 16), Nat.digitChar (n % 16)] = some n := by decide

theorem readQuotedWord_control (hx : x.toNat < 0x20)
    (h : c.rest = '\\' :: 'u' :: '0' :: '0' :: Nat.digitChar (x.toNat / 16) ::
      Nat.digitChar (x.toNat % 16) :: r) :
    readQuotedWord '"' (fuel + 1) f c = readQuotedWord '"' fuel (f.push x) (c.advance 6) := by
  refine readQuotedWord_escape h (by decide) ?_
  have hcode := ofHex?_digitChar x.toNat hx
  simp [readEscape?, h, readCode?, Cursor.skip, Cursor.advance, hcode]
  omega

/-- One character of a string. -/
theorem readQuotedWord_char (hblank : x ≠ ' ') (hbreak : ∀ y ∈ escapedChar x, isBreak y = false)
    (h : c.rest = escapedChar x ++ r) :
    readQuotedWord '"' (fuel + 1) f c =
      readQuotedWord '"' fuel (f.push x) (c.advance (escapedChar x).length) := by
  rw [escapedChar] at h hbreak ⊢
  split_ifs at h hbreak ⊢ with hquote hslash hb hf hn hr ht hcontrol
  · exact readQuotedWord_letter h (by decide) (by decide) (by rw [hquote]; rfl)
  · exact readQuotedWord_letter h (by decide) (by decide) (by rw [hslash]; rfl)
  · exact readQuotedWord_letter h (by decide) (by decide) (by rw [hb]; rfl)
  · exact readQuotedWord_letter h (by decide) (by decide) (by rw [hf]; rfl)
  · exact readQuotedWord_letter h (by decide) (by decide) (by rw [hn]; rfl)
  · exact readQuotedWord_letter h (by decide) (by decide) (by rw [hr]; rfl)
  · exact readQuotedWord_letter h (by decide) (by decide) (by rw [ht]; rfl)
  · exact readQuotedWord_control hcontrol h
  · have hx : isBreak x = false := hbreak x (List.mem_singleton_self x)
    have hspacing : isSpacing x = false := by simp [isSpacing, hblank, ht]
    simp [readQuotedWord, h, hx, hspacing, hquote, hslash, Cursor.skip_eq]

end

/-- A part of a string without spaces. -/
theorem readQuotedWord_escaped : ∀ (w : List Char), ' ' ∉ w → (∀ y ∈ escaped w, isBreak y = false) →
    ∀ (fuel : Nat) (f : Folding) (c : Cursor) (r : List Char), c.rest = escaped w ++ r →
    readQuotedWord '"' (fuel + w.length) f c =
      readQuotedWord '"' fuel { f with done := w.reverse ++ f.done } (c.advance (escaped w).length)
  | [], _, _, fuel, f, c, r, h => by simp [escaped, Cursor.advance_zero]
  | x :: w, hblank, hbreak, fuel, f, c, r, h => by
    have hescaped : escaped (x :: w) = escapedChar x ++ escaped w := List.flatMap_cons
    rw [hescaped] at h hbreak ⊢
    rw [List.append_assoc] at h
    have hx : x ≠ ' ' := fun h => hblank (h ▸ List.mem_cons_self)
    have hw := readQuotedWord_escaped w (fun h => hblank (List.mem_cons_of_mem x h))
      (fun y hy => hbreak y (List.mem_append_right _ hy)) fuel (f.push x)
      (c.advance (escapedChar x).length) r (Cursor.rest_advance h)
    rw [List.length_cons, ← Nat.add_assoc,
      readQuotedWord_char hx (fun y hy => hbreak y (List.mem_append_left _ hy)) h, hw,
      Cursor.advance_advance, List.length_append]
    simp [Folding.push]

theorem readQuotedWord_end {fuel : Nat} {f : Folding} {c : Cursor} {y : Char} {r : List Char}
    (h : c.rest = y :: r) (hy : y = ' ' ∨ y = '"') :
    readQuotedWord '"' (fuel + 1) f c = some (f, c) := by
  rcases hy with rfl | rfl
  · simp [readQuotedWord, h, isSpacing]
  · simp [readQuotedWord, h, isSpacing, isBreak, isPlainBreak, isKeptBreak]

/-- The spaces between two parts. -/
theorem readGap_spaces : ∀ (n fuel : Nat) (f : Folding) (c : Cursor) (y : Char) (r : List Char),
    c.rest = List.replicate n ' ' ++ y :: r → isSpacing y = false → isBreak y = false →
    f.broken = false →
    readGap 0 (fuel + n + 1) f c =
      some ({ f with blanks := List.replicate n ' ' ++ f.blanks }, c.advance n)
  | 0, fuel, f, c, y, r, h, hspacing, hbreak, hf => by
    simp only [List.replicate_zero, List.nil_append] at h
    simp [readGap, h, hspacing, Cursor.readBreak?_eq_none h hbreak, Cursor.advance_zero]
  | n + 1, fuel, f, c, y, r, h, hspacing, hbreak, hf => by
    have hspace : isSpacing ' ' = true := by decide
    have hrest : (c.advance 1).rest = List.replicate n ' ' ++ y :: r := by
      simp [Cursor.advance, h, List.replicate_succ]
    rw [List.replicate_succ, List.cons_append] at h
    have hstep : readGap 0 (fuel + (n + 1) + 1) f c =
        readGap 0 (fuel + n + 1) (f.addBlank ' ') (c.advance 1) := by
      simp [readGap, h, hspace, hf, Cursor.skip_eq]
    rw [hstep, readGap_spaces n fuel (f.addBlank ' ') (c.advance 1) y r hrest hspacing hbreak
      (by simp [Folding.addBlank, hf]), Cursor.advance_advance, Nat.add_comm 1 n]
    simp [Folding.addBlank, hf, List.replicate_succ']

theorem length_le_escaped (cs : List Char) : cs.length ≤ (escaped cs).length := by
  induction cs with
  | nil => exact Nat.le_refl _
  | cons x cs ih =>
    have hx : 1 ≤ (escapedChar x).length := by
      rw [escapedChar]
      split_ifs <;> simp
    rw [escaped, List.flatMap_cons, List.length_append, List.length_cons]
    exact (Nat.add_comm _ 1) ▸ Nat.add_le_add hx ih

/-- Behind spaces, or at the end of the string, stands something that is neither blank nor break. -/
theorem escaped_head {cs : List Char} (hblank : cs.head? ≠ some ' ')
    (hbreak : ∀ y ∈ escaped cs, isBreak y = false) (rest : List Char) :
    ∃ y r, escaped cs ++ '"' :: rest = y :: r ∧ isSpacing y = false ∧ isBreak y = false := by
  cases cs with
  | nil => exact ⟨'"', rest, rfl, by decide, by decide⟩
  | cons x cs =>
    have hescaped : escaped (x :: cs) = escapedChar x ++ escaped cs := List.flatMap_cons
    have hx : x ≠ ' ' := by simpa using hblank
    rw [hescaped] at hbreak ⊢
    rw [escapedChar] at hbreak ⊢
    split_ifs at hbreak ⊢ with hquote hslash hb hf hn hr ht hcontrol
    case neg => exact ⟨x, _, rfl, by simp [isSpacing, hx, ht], hbreak x (by simp)⟩
    all_goals exact ⟨'\\', _, rfl, by decide, by decide⟩

/-- A text as a part without spaces, the spaces behind it and the rest. -/
theorem exists_parts : ∀ cs : List Char, ∃ w n u, cs = w ++ (List.replicate n ' ' ++ u) ∧ ' ' ∉ w ∧
    u.head? ≠ some ' ' ∧ (n = 0 → u = [])
  | [] => ⟨[], 0, [], rfl, by simp, by simp, fun _ => rfl⟩
  | x :: cs => by
    obtain ⟨w, n, u, rfl, hw, hu, hn⟩ := exists_parts cs
    by_cases hx : x = ' '
    · subst hx
      cases w with
      | nil => exact ⟨[], n + 1, u, by simp [List.replicate_succ], by simp, hu, by simp⟩
      | cons y w =>
        have hy : y ≠ ' ' := fun h => hw (h ▸ List.mem_cons_self)
        exact ⟨[], 1, y :: w ++ (List.replicate n ' ' ++ u), by simp, by simp, by simpa using hy,
          by simp⟩
    · exact ⟨x :: w, n, u, rfl, by simpa [Ne.symm hx] using hw, hu, hn⟩

theorem escaped_append (as bs : List Char) : escaped (as ++ bs) = escaped as ++ escaped bs :=
  List.flatMap_append

theorem escaped_spaces (n : Nat) : escaped (List.replicate n ' ') = List.replicate n ' ' := by
  induction n with
  | zero => rfl
  | succ n ih => rw [List.replicate_succ, escaped, List.flatMap_cons]; exact congrArg (' ' :: ·) ih

/-- A string up to its second quote. -/
theorem readQuotedLines_escaped : ∀ (fuel : Nat) (cs done : List Char) (c : Cursor)
    (rest : List Char), c.rest = escaped cs ++ '"' :: rest →
    (∀ y ∈ escaped cs, isBreak y = false) → c.column ≠ 0 → cs.length < fuel →
    readQuotedLines '"' fuel { done } c =
      some ({ done := cs.reverse ++ done }, c.advance ((escaped cs).length + 1))
  | 0, cs, done, c, rest, h, hbreak, hcolumn, hfuel => absurd hfuel (Nat.not_lt_zero _)
  | fuel + 1, cs, done, c, rest, h, hbreak, hcolumn, hfuel => by
    obtain ⟨w, n, u, rfl, hw, hu, hn⟩ := exists_parts cs
    rw [escaped_append, escaped_append, escaped_spaces] at h hbreak ⊢
    rw [List.append_assoc, List.append_assoc] at h
    have hlength := congrArg List.length h
    rw [List.length_append] at hlength
    have hle := length_le_escaped w
    have hword := readQuotedWord_escaped w hw (fun y hy => hbreak y (List.mem_append_left _ hy))
      (c.rest.length - w.length + 1) { done } c _ h
    rw [show c.rest.length - w.length + 1 + w.length = c.rest.length + 1 by omega] at hword
    have hrest := Cursor.rest_advance h
    have hnonempty : c.rest.isEmpty = false := by rw [h]; simp
    have hmark := Cursor.atDocumentMark_of_column hcolumn
    cases n with
    | zero =>
      obtain rfl := hn rfl
      have hnil : escaped [] = [] := rfl
      have hquote : (c.advance (escaped w).length).at? '"' = true := by
        simp [Cursor.at?, hrest, hnil]
      rw [readQuotedWord_end hrest (.inr rfl)] at hword
      simp [readQuotedLines, hmark, hnonempty, hword, hquote, Cursor.skip_eq,
        Cursor.advance_advance, hnil]
    | succ n =>
      -- behind the spaces there is at least the quote, so that the gap ends
      obtain ⟨y, r, htail, hspacing, hy⟩ := escaped_head hu
        (fun y hy => hbreak y (List.mem_append_right _ (List.mem_append_right _ hy))) rest
      have hquote : (c.advance (escaped w).length).at? '"' = false := by
        simp [Cursor.at?, hrest, List.replicate_succ]
      have hgaprest := hrest
      rw [htail] at hgaprest
      have hgap := readGap_spaces (n + 1) (r.length + 1) { done := w.reverse ++ done } _ y r hgaprest
        hspacing hy rfl
      rw [show r.length + 1 + (n + 1) + 1 = (c.advance (escaped w).length).rest.length + 1 by
        rw [hgaprest]; simp; omega] at hgap
      have hspaces : (List.replicate (n + 1) ' ').length = n + 1 := List.length_replicate
      have hnext := Cursor.rest_advance hrest
      rw [hspaces, Cursor.advance_advance] at hnext
      rw [List.length_append, List.length_append, hspaces] at hfuel
      have hu := readQuotedLines_escaped fuel u
        (List.replicate (n + 1) ' ' ++ (w.reverse ++ done)) _ rest hnext
        (fun y hy => hbreak y (List.mem_append_right _ (List.mem_append_right _ hy)))
        (by simp [Cursor.advance]) (by omega)
      rw [List.replicate_succ, List.cons_append] at hrest
      rw [readQuotedWord_end hrest (.inl rfl)] at hword
      simp only [readQuotedLines, hmark, hnonempty, Bool.or_self, Bool.false_eq_true, if_false, hword,
        Option.bind_eq_bind, Option.bind_some, hquote, hgap, Cursor.advance_advance, Folding.settle,
        List.append_nil, hu]
      have hcount : (escaped w).length + (n + 1) + ((escaped u).length + 1) =
          (escaped w ++ (List.replicate (n + 1) ' ' ++ escaped u)).length + 1 := by
        rw [List.length_append, List.length_append, hspaces]
        omega
      rw [hcount]
      simp

/-- A string that JSON writes without breaks is read as what it is. -/
theorem readQuoted_quoted {s : String} {c : Cursor} {rest : List Char} (h : c.rest = quoted s ++ rest)
    (hbreak : ∀ y ∈ quoted s, isBreak y = false) :
    readQuoted '"' c = some (s, c.advance (quoted s).length) := by
  have hrest : c.skip.rest = escaped s.toList ++ '"' :: rest := by
    simp [Cursor.skip, h, quoted]
  have hbreak : ∀ y ∈ escaped s.toList, isBreak y = false := fun y hy =>
    hbreak y (by simp [quoted, hy])
  have hle := length_le_escaped s.toList
  have hlength := congrArg List.length h
  rw [List.length_append, quoted, List.length_cons, List.length_append] at hlength
  have hlines := readQuotedLines_escaped (c.rest.length + 1) s.toList [] c.skip rest hrest hbreak
    (by simp [Cursor.skip]) (by omega)
  have hcount : 1 + ((escaped s.toList).length + 1) = (quoted s).length := by
    simp [quoted, Nat.add_comm]
  rw [Cursor.skip_eq, Cursor.advance_advance, hcount] at hlines
  simp only [readQuoted, Cursor.skip_eq, hlines, Option.bind_eq_bind, Option.bind_some, Folding.text,
    List.append_nil, List.reverse_reverse, String.ofList_toList, Option.pure_def]

/-! ### Words -/

/-- A character of a word between brackets. -/
def isWordChar (x : Char) : Bool :=
  !isSpacing x && !isBreak x && !isFlowMark x && x ≠ ':' && x ≠ '#'

theorem readPlainWord_word : ∀ (w : List Char), w.all isWordChar →
    ∀ (fuel : Nat) (done : List Char) (c : Cursor) (y : Char) (rest : List Char),
    c.rest = w ++ y :: rest → isFlowMark y → w.length < fuel →
    readPlainWord true fuel { done } c = some ({ done := w.reverse ++ done }, c.advance w.length)
  | _, _, 0, _, _, _, _, _, _, hfuel => absurd hfuel (Nat.not_lt_zero _)
  | [], _, fuel + 1, done, c, y, rest, h, hy, hfuel => by
    have hcolon : y ≠ ':' := by rintro rfl; exact absurd hy (by decide)
    simp only [List.nil_append] at h
    simp [readPlainWord, h, hy, hcolon, Cursor.advance_zero]
  | x :: w, hw, fuel + 1, done, c, y, rest, h, hy, hfuel => by
    simp only [List.all_cons, Bool.and_eq_true] at hw
    have hx := hw.1
    simp only [isWordChar, Bool.and_eq_true, Bool.not_eq_true', decide_eq_true_eq] at hx
    obtain ⟨⟨⟨⟨hspacing, hbreak⟩, hmark⟩, hcolon⟩, -⟩ := hx
    have hrest : (c.advance 1).rest = w ++ y :: rest := by simp [Cursor.advance, h]
    rw [List.length_cons] at hfuel
    have hw := readPlainWord_word w hw.2 fuel (x :: done) (c.advance 1) y rest hrest hy (by omega)
    rw [List.cons_append] at h
    simp only [readPlainWord, h, hspacing, hbreak, hmark, hcolon, Bool.or_self, Bool.and_false,
      Bool.false_eq_true, decide_false, Bool.false_and, if_false, Folding.settle, Folding.push,
      List.nil_append, Cursor.skip_eq, hw, Cursor.advance_advance]
    simp [Nat.add_comm]

/-- A word between brackets is read as what it is. -/
theorem readPlain_word {w : List Char} (hw : w.all isWordChar) (hnil : w ≠ []) (indent : Int)
    {c : Cursor} {y : Char} {rest : List Char} (h : c.rest = w ++ y :: rest) (hy : isFlowMark y)
    (hcolumn : c.column ≠ 0) :
    readPlain true indent c = some (String.ofList w, false, c.advance w.length) := by
  have hlength := congrArg List.length h
  rw [List.length_append] at hlength
  have hword := readPlainWord_word w hw (c.rest.length + 1) [] c y rest h hy (by omega)
  have hstart : c.at? '#' = false := by
    obtain ⟨x, w, rfl⟩ := List.exists_cons_of_ne_nil hnil
    have hx : x ≠ '#' := by
      rintro rfl
      simp [isWordChar] at hw
    simpa [Cursor.at?, h] using hx
  have hend : isSpacing y = false ∧ isBreak y = false := by
    simp only [isFlowMark, Bool.or_eq_true, decide_eq_true_eq] at hy
    rcases hy with (((rfl | rfl) | rfl) | rfl) | rfl <;> decide
  have hrest := Cursor.rest_advance h
  simp [readPlain, readPlainLines, Cursor.atDocumentMark_of_column hcolumn, hstart, hword, hrest,
    hend.1, hend.2, Folding.text]

end Schematic.Yaml
