import Mathlib.Data.List.Nodup
import Mathlib.Logic.Relation

/-! Following a partial function from a value to its end. A climb that ends is the only one from its
    start, and so it never comes back to a value it has left: from there it would have to end after
    two different numbers of steps. -/

namespace Schematic

variable {α : Type}

/-- From `x`, `next` leads through the values of a list, in order, and there to an end. -/
def Climb (next : α → Option α) : α → List α → Prop
  | x, [] => next x = none
  | x, y :: path => next x = some y ∧ Climb next y path

namespace Climb

variable {next next' : α → Option α}

theorem unique : ∀ {path path' : List α} {x : α}, Climb next x path → Climb next x path' →
    path = path'
  | [], [], _, _, _ => rfl
  | [], _ :: _, _, h, h' => absurd (h.symm.trans h'.1) (by simp)
  | _ :: _, [], _, h, h' => absurd (h'.symm.trans h.1) (by simp)
  | y :: path, z :: path', _, h, h' => by
    have hyz : y = z := Option.some.inj (h.1.symm.trans h'.1)
    subst hyz
    rw [unique h.2 h'.2]

/-- Where all that a value leads to has an end, so has the value. -/
theorem exists_of_next {x : α} (h : ∀ y, next x = some y → ∃ path, Climb next y path) :
    ∃ path, Climb next x path := by
  cases hx : next x with
  | none => exact ⟨[], hx⟩
  | some y =>
    obtain ⟨path, hpath⟩ := h y hx
    exact ⟨y :: path, hx, hpath⟩

/-- Every value on the way has a climb of its own, the rest of the way. -/
theorem rest : ∀ {before : List α} {x y : α} {after : List α}, Climb next x (before ++ y :: after) →
    Climb next y after
  | [], _, _, _, h => h.2
  | _ :: _, _, _, _, h => rest h.2

/-- What is on the way can be reached in fewer steps from its end. -/
theorem shorter {x y : α} {path : List α} (h : Climb next x path) (hy : y ∈ path) :
    ∃ after, Climb next y after ∧ after.length < path.length := by
  obtain ⟨before, after, rfl⟩ := List.append_of_mem hy
  refine ⟨after, h.rest, ?_⟩
  rw [List.length_append, List.length_cons]
  omega

theorem not_mem {x : α} {path : List α} (h : Climb next x path) : x ∉ path := by
  intro hx
  obtain ⟨after, hafter, hlt⟩ := h.shorter hx
  rw [hafter.unique h] at hlt
  exact Nat.lt_irrefl _ hlt

/-- A climb comes to no value twice. -/
theorem nodup : ∀ {path : List α} {x : α}, Climb next x path → (x :: path).Nodup
  | [], _, _ => List.nodup_singleton _
  | _ :: _, _, h => List.nodup_cons.mpr ⟨not_mem h, nodup h.2⟩

/-- The last value of a climb leads nowhere. -/
theorem ends : ∀ {path : List α} {x : α}, Climb next x path → next (path.getLast?.getD x) = none
  | [], _, h => h
  | _ :: _, _, h => by
    rw [List.getLast?_cons, Option.getD_some]
    exact ends h.2

/-- What is on the way is what something on the way, or the start, leads to. -/
theorem mem_iff : ∀ {path : List α} {x y : α}, Climb next x path →
    (y ∈ path ↔ ∃ z ∈ x :: path, next z = some y)
  | [], x, y, h => by
    have hx : next x = none := h
    simp [hx]
  | w :: path, x, y, h => by
    rw [List.mem_cons, mem_iff h.2]
    constructor
    · rintro (rfl | ⟨z, hz, hzy⟩)
      · exact ⟨x, List.mem_cons_self .., h.1⟩
      · exact ⟨z, List.mem_cons_of_mem _ hz, hzy⟩
    · rintro ⟨z, hz, hzy⟩
      rcases List.mem_cons.mp hz with rfl | hz
      · exact .inl (Option.some.inj (hzy.symm.trans h.1))
      · exact .inr ⟨z, hz, hzy⟩

/-- What is on the way is just what can be reached step by step. -/
theorem mem_iff_reaches : ∀ {path : List α} {x y : α}, Climb next x path →
    (y ∈ x :: path ↔ Relation.ReflTransGen (fun a b => next a = some b) x y)
  | [], x, y, h => by
    have hx : next x = none := h
    rw [List.mem_singleton, Relation.ReflTransGen.cases_head_iff]
    simp [hx, eq_comm]
  | w :: path, x, y, h => by
    rw [List.mem_cons, mem_iff_reaches h.2, Relation.ReflTransGen.cases_head_iff (a := x)]
    simp [h.1, eq_comm]

/-- What is left is never reached again. -/
theorem not_back {x y : α} {path : List α} (h : Climb next x path) (hy : y ∈ x :: path) :
    next y ≠ some x := fun hyx => h.not_mem (h.mem_iff.mpr ⟨y, hy, hyx⟩)

/-- Where the way has an end, it does not lead back to its start. -/
theorem not_reaches_self : ∀ {path : List α} {x : α}, Climb next x path →
    ¬ Relation.TransGen (fun a b => next a = some b) x x
  | [], x, h, hx => by
    obtain ⟨y, hxy, -⟩ := Relation.TransGen.head'_iff.mp hx
    have hend : next x = none := h
    rw [hend] at hxy
    cases hxy
  | w :: path, x, h, hx => by
    obtain ⟨y, hxy, hyx⟩ := Relation.TransGen.head'_iff.mp hx
    obtain rfl : w = y := Option.some.inj (h.1.symm.trans hxy)
    exact h.not_mem (h.2.mem_iff_reaches.mpr hyx)

/-- No two values on the way lead to the same one. -/
theorem eq_of_next : ∀ {path : List α} {x y z w : α}, Climb next x path → y ∈ x :: path →
    z ∈ x :: path → next y = some w → next z = some w → y = z
  | [], _, _, _, _, _, hy, hz, _, _ => (List.mem_singleton.mp hy).trans (List.mem_singleton.mp hz).symm
  | o :: path, x, y, z, w, h, hy, hz, hyw, hzw => by
    rcases List.mem_cons.mp hy with rfl | hy'
    · rcases List.mem_cons.mp hz with rfl | hz'
      · rfl
      · rw [h.1] at hyw
        cases hyw
        exact absurd hzw (h.2.not_back hz')
    · rcases List.mem_cons.mp hz with rfl | hz'
      · rw [h.1] at hzw
        cases hzw
        exact absurd hyw (h.2.not_back hy')
      · exact eq_of_next h.2 hy' hz' hyw hzw

/-- Only the end of a climb leads nowhere. -/
theorem eq_last_of_mem : ∀ {path : List α} {x y : α}, Climb next x path → y ∈ x :: path →
    next y = none → y = path.getLast?.getD x
  | [], _, _, _, hy, _ => List.mem_singleton.mp hy
  | w :: path, x, y, h, hy, hnone => by
    rw [List.getLast?_cons, Option.getD_some]
    refine eq_last_of_mem h.2 ((List.mem_cons.mp hy).resolve_left ?_) hnone
    rintro rfl
    rw [h.1] at hnone
    cases hnone

theorem last_mem : ∀ (path : List α) (x : α), path.getLast?.getD x ∈ x :: path
  | [], x => List.mem_singleton.mpr rfl
  | w :: path, x => by
    rw [List.getLast?_cons, Option.getD_some]
    exact List.mem_cons_of_mem _ (last_mem path w)

/-- A property that each step keeps holds all the way. -/
theorem forall_mem {p : α → Prop} (hstep : ∀ {x y}, p x → next x = some y → p y) :
    ∀ {path : List α} {x : α}, Climb next x path → p x → ∀ y ∈ path, p y
  | [], _, _, _, _, hy => absurd hy List.not_mem_nil
  | z :: _, _, h, hx, y, hy => by
    have hz : p z := hstep hx h.1
    rcases List.mem_cons.mp hy with rfl | hy
    · exact hz
    · exact forall_mem hstep h.2 hz y hy

/-! ### Another function -/

/-- A climb only hangs on what its values lead to. -/
theorem congr : ∀ {path : List α} {x : α}, Climb next x path →
    (∀ y ∈ x :: path, next' y = next y) → Climb next' x path
  | [], x, h, heq => by rw [Climb, heq x (List.mem_cons_self ..)]; exact h
  | y :: path, x, h, heq => by
    rw [Climb, heq x (List.mem_cons_self ..)]
    exact ⟨h.1, congr h.2 fun z hz => heq z (List.mem_cons_of_mem _ hz)⟩

/-- When `m` alone is made to lead elsewhere, a climb through `m` goes on there. -/
theorem splice {m : α} {on : List α} (heq : ∀ x, x ≠ m → next' x = next x)
    (hon : Climb next' m on) : ∀ {before after : List α} {x : α},
    Climb next x (before ++ m :: after) → x ≠ m → Climb next' x (before ++ m :: on)
  | [], _, x, h, hx => ⟨by rw [heq x hx]; exact h.1, hon⟩
  | y :: before, after, x, h, hx => by
    have hy : y ≠ m := by
      rintro rfl
      exact h.2.not_mem (by simp)
    exact ⟨by rw [heq x hx]; exact h.1, splice heq hon h.2 hy⟩

/-- What leads to `m` still does when `m` alone is made to lead elsewhere. -/
theorem reaches_of_eq {m : α} (heq : ∀ x, x ≠ m → next' x = next x) :
    ∀ {path : List α} {x : α}, Climb next x path → m ∈ x :: path →
      Relation.ReflTransGen (fun a b => next' a = some b) x m
  | [], x, _, hm => by
    rw [List.mem_singleton.mp hm]
  | y :: path, x, h, hm => by
    by_cases hx : x = m
    · rw [hx]
    · have hxy : next' x = some y := (heq x hx).trans h.1
      exact .head hxy (reaches_of_eq heq h.2 ((List.mem_cons.mp hm).resolve_left (Ne.symm hx)))

/-- When `m` alone is made to lead elsewhere, and that has an end, all climbs still have one. -/
theorem exists_of_rehung {m : α} {on : List α} (heq : ∀ x, x ≠ m → next' x = next x)
    (hon : Climb next' m on) {x : α} {path : List α} (h : Climb next x path) :
    ∃ path', Climb next' x path' := by
  by_cases hx : x = m
  · subst hx; exact ⟨on, hon⟩
  by_cases hm : m ∈ path
  · obtain ⟨before, after, rfl⟩ := List.append_of_mem hm
    exact ⟨_, splice heq hon h hx⟩
  · refine ⟨path, h.congr fun y hy => heq y ?_⟩
    rintro rfl
    rcases List.mem_cons.mp hy with rfl | hy
    · exact hx rfl
    · exact hm hy

end Climb

end Schematic
