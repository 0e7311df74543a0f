import Mathlib.Data.List.Nodup
import Schematic.Dot.Writer

/-! The printed forms of idents. The digits after the last underscore are those of the number, whatever
    stands before, so two printed forms are the same only where the numbers are; and an instance and a
    cluster are never drawn under one name. -/

namespace Schematic

/-- Text that does not have the separator is what comes after the last one. -/
theorem eq_of_append_separator {α : Type} [DecidableEq α] {c : α} {as bs ds es : List α} (hd : c ∉ ds)
    (he : c ∉ es) (h : as ++ c :: ds = bs ++ c :: es) : as = bs ∧ ds = es := by
  have hlast : ∀ {xs ys : List α}, c ∉ ys →
      (xs ++ c :: ys).reverse.takeWhile (· ≠ c) = ys.reverse := by
    intro xs ys hys
    rw [List.reverse_append, List.reverse_cons, List.append_assoc, List.singleton_append,
      List.takeWhile_append_of_pos, List.takeWhile_cons_of_neg (by simp), List.append_nil]
    intro y hy
    simpa using ne_of_mem_of_not_mem (List.mem_reverse.mp hy) hys
  have hds : ds = es := by
    rw [← List.reverse_inj, ← hlast hd, h, hlast he]
  subst hds
  exact ⟨List.append_cancel_right h, rfl⟩

/-- The digits of a number tell which it is. -/
theorem eq_of_repr_eq {m n : Nat} (h : m.repr = n.repr) : m = n := by
  have hdigits : Nat.toDigits 10 m = Nat.toDigits 10 n := by
    rw [← String.toList_ofList (l := Nat.toDigits 10 m), ← Nat.repr, h, Nat.repr,
      String.toList_ofList]
  rw [← Nat.ofDigitChars_toDigits (b := 10) (n := m) (by decide) (by decide), hdigits,
    Nat.ofDigitChars_toDigits (by decide) (by decide)]

theorem underscore_not_mem_repr (n : Nat) : '_' ∉ n.repr.toList := by
  rw [Nat.repr, String.toList_ofList]
  intro h
  exact absurd (Nat.isDigit_of_mem_toDigits (by decide) (by decide) h) (by decide)

/-- A number that is printed after an underscore can be read off. -/
theorem eq_of_numbered {a b : String} {m n : Nat}
    (h : a ++ "_" ++ toString m = b ++ "_" ++ toString n) : a = b ∧ m = n := by
  have hlist : a.toList ++ '_' :: m.repr.toList = b.toList ++ '_' :: n.repr.toList := by
    have hunder : "_".toList = ['_'] := rfl
    have := congrArg String.toList h
    rwa [String.toList_append, String.toList_append, String.toList_append, String.toList_append,
      hunder, List.append_assoc, List.append_assoc, List.singleton_append,
      List.singleton_append] at this
  obtain ⟨hab, hmn⟩ :=
    eq_of_append_separator (underscore_not_mem_repr m) (underscore_not_mem_repr n) hlist
  exact ⟨String.toList_inj.mp hab, eq_of_repr_eq (String.toList_inj.mp hmn)⟩

namespace Ident

variable {a b : Ident}

theorem number_of_text (h : a.text = b.text) : a.number = b.number :=
  UInt64.toNat_inj.mp (eq_of_numbered h).2

theorem clusterName_eq (a : Ident) :
    Dot.clusterName a = "cluster_" ++ a.kind ++ "_" ++ toString a.number.toNat := by
  rw [Dot.clusterName, text, String.append_assoc, String.append_assoc, String.append_assoc]

theorem number_of_clusterName (h : Dot.clusterName a = Dot.clusterName b) : a.number = b.number := by
  rw [clusterName_eq, clusterName_eq] at h
  exact UInt64.toNat_inj.mp (eq_of_numbered h).2

theorem number_of_text_clusterName (h : a.text = Dot.clusterName b) : a.number = b.number := by
  rw [clusterName_eq] at h
  exact UInt64.toNat_inj.mp (eq_of_numbered h).2

theorem text_ne_clusterName (a : Ident) : a.text ≠ Dot.clusterName a := by
  intro h
  have hlen := congrArg String.length h
  rw [Dot.clusterName, String.length_append] at hlen
  exact absurd hlen (by simp)

/-- The names that can be drawn for an element: its own and that of a cluster. -/
def names (a : Ident) : List String := [a.text, Dot.clusterName a]

/-- Elements with different numbers have no name in common. -/
theorem nodup_names {ids : List Ident} (h : ids.Pairwise fun a b => a.number ≠ b.number) :
    (ids.flatMap names).Nodup := by
  refine List.nodup_flatMap.mpr ⟨fun a _ => ?_, h.imp fun {a b} hne => ?_⟩
  · simp [names, text_ne_clusterName]
  · have hdisjoint : List.Disjoint (names a) (names b) := by
      intro x hx hy
      simp only [names, List.mem_cons, List.not_mem_nil, or_false] at hx hy
      rcases hx with rfl | rfl <;> rcases hy with hy | hy
      · exact hne (number_of_text hy)
      · exact hne (number_of_text_clusterName hy)
      · exact hne (number_of_text_clusterName hy.symm).symm
      · exact hne (number_of_clusterName hy)
    exact hdisjoint

end Ident

end Schematic
