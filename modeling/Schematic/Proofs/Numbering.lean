import Mathlib.Algebra.Group.Nat.Defs
import Mathlib.Data.List.Nodup
import Schematic.Ident

/-! Numbers at the edge of the word. A counter goes on from any number and comes around to zero behind
    the largest one, and up to a full round it never gives a number twice. Sorted by number, idents
    come in the order in which they were handed out, but for those from behind the edge, which are
    moved to the front. -/

namespace Schematic

namespace Ident

variable {a b : Ident} {ids sorted : List Ident}

theorem isLE_compare : (compare a b).isLE ↔ a.number.toNat ≤ b.number.toNat := by
  show (compareOfLessAndEq a.number b.number).isLE ↔ _
  simp only [compareOfLessAndEq, UInt64.lt_iff_toNat_lt, ← UInt64.toNat_inj]
  split
  · simp [Ordering.isLE]; omega
  · split
    · simp [Ordering.isLE]; omega
    · simp [Ordering.isLE]; omega

/-- Idents from the oldest to the newest, the way they are compared. -/
def Sorted (ids : List Ident) : Prop := ids.Pairwise fun a b => (compare a b).isLE

/-- Sorting by number is sorting by comparison. -/
theorem sorted_sort (ids : List Ident) : Sorted (sort ids) := by
  have hle : ∀ a b : Ident, a.upTo b ↔ a.number.toNat ≤ b.number.toNat := fun a b => by
    rw [upTo, decide_eq_true_iff, UInt64.le_iff_toNat_le]
  refine (List.pairwise_mergeSort ?_ ?_ ids).imp fun {a b} h => isLE_compare.mpr ((hle a b).mp h)
  · intro a b c hab hbc
    exact (hle a c).mpr (Nat.le_trans ((hle a b).mp hab) ((hle b c).mp hbc))
  · intro a b
    rw [Bool.or_eq_true, hle, hle]
    exact Nat.le_total _ _

/-- Under different numbers there is one way only to sort idents. -/
theorem eq_of_sorted (hnodup : (ids.map (·.number)).Nodup) (hids : Sorted ids)
    (hsorted : Sorted sorted) (hperm : sorted.Perm ids) : sorted = ids := by
  refine List.Perm.eq_of_pairwise (fun a b ha hb hab hba => ?_) hsorted hids hperm
  have hnumber : a.number.toNat = b.number.toNat :=
    Nat.le_antisymm (isLE_compare.mp hab) (isLE_compare.mp hba)
  exact List.inj_on_of_nodup_map hnodup (hperm.subset ha) hb (UInt64.toNat_inj.mp hnumber)

end Ident

namespace Counter

/-- From where the counter stands, the idents count on. -/
theorem takeAll_eq : ∀ (kinds : List String) (c : Counter), c.takeAll kinds =
    (kinds.mapIdx fun k kind => ⟨kind, c.next + .ofNat k⟩,
      { c with next := c.next + .ofNat kinds.length })
  | [], c => by simp [takeAll]
  | kind :: kinds, c => by
    have hnext : ∀ k : Nat, c.next + 1 + .ofNat k = c.next + .ofNat (k + 1) := fun k => by
      rw [UInt64.ofNat_add, UInt64.add_assoc, UInt64.add_comm (.ofNat k)]
      rfl
    have hrest := takeAll_eq kinds (c.take kind).2
    simp only [take, hnext] at hrest
    simp only [takeAll, take, hrest, List.mapIdx_cons, List.length_cons]
    simp

/-- The idents that a counter hands out for some kinds, from a first number on. -/
def handedOut (first : UInt64) (kinds : List String) : List Ident :=
  ((startingAt first).takeAll kinds).1

/-- The counter after that. -/
def after (first : UInt64) (kinds : List String) : Counter := ((startingAt first).takeAll kinds).2

/-- How many numbers there are from the first one up to the edge. -/
def room (first : UInt64) : Nat := 2 ^ 64 - first.toNat

variable {first : UInt64} {kinds : List String}

theorem length_handedOut : (handedOut first kinds).length = kinds.length := by
  rw [handedOut, takeAll_eq, List.length_mapIdx]

theorem kind_handedOut : (handedOut first kinds).map (·.kind) = kinds := by
  rw [handedOut, takeAll_eq]
  refine List.ext_getElem? fun k => ?_
  simp [Function.comp_def]

theorem number_handedOut {k : Nat} {a : Ident} (ha : (handedOut first kinds)[k]? = some a) :
    a.number.toNat = (first.toNat + k) % 2 ^ 64 := by
  rw [handedOut, takeAll_eq, List.getElem?_mapIdx, Option.map_eq_some_iff] at ha
  obtain ⟨kind, -, rfl⟩ := ha
  simp [startingAt, UInt64.toNat_add, UInt64.toNat_ofNat']

/-- Within one round no number is given twice. -/
theorem nodup_handedOut (hround : kinds.length ≤ 2 ^ 64) :
    ((handedOut first kinds).map (·.number)).Nodup := by
  have hnumber : ∀ k, (hk : k < (handedOut first kinds).length) →
      (handedOut first kinds)[k].number.toNat = (first.toNat + k) % 2 ^ 64 := fun k hk =>
    number_handedOut (List.getElem?_eq_getElem hk)
  refine List.pairwise_map.mpr (List.pairwise_iff_getElem.mpr fun i j hi hj hij heq => ?_)
  have hsame := hnumber i hi
  rw [heq, hnumber j hj] at hsame
  rw [length_handedOut] at hj
  omega

/-! ### Around the edge -/

/-- Up to the edge, numbers count on from the first one. -/
theorem number_take {k : Nat} {a : Ident}
    (ha : ((handedOut first kinds).take (room first))[k]? = some a) :
    k < room first ∧ a.number.toNat = first.toNat + k := by
  have hlt := first.toNat_lt
  rw [List.getElem?_take] at ha
  split at ha
  · next hk =>
    rw [room] at hk ⊢
    exact ⟨hk, (number_handedOut ha).trans (Nat.mod_eq_of_lt (by omega))⟩
  · cases ha

/-- Behind the edge they count on from zero, and do not come up to the first one. -/
theorem number_drop (hround : kinds.length ≤ 2 ^ 64) {k : Nat} {a : Ident}
    (ha : ((handedOut first kinds).drop (room first))[k]? = some a) :
    k < first.toNat ∧ a.number.toNat = k := by
  rw [List.getElem?_drop] at ha
  have hk := (List.getElem?_eq_some_iff.mp ha).1
  have hlt := first.toNat_lt
  rw [length_handedOut, room] at hk
  have hnumber := number_handedOut ha
  rw [room] at hnumber
  omega

/-- The idents from behind the edge, and then those from before it. -/
def turned (first : UInt64) (kinds : List String) : List Ident :=
  (handedOut first kinds).drop (room first) ++ (handedOut first kinds).take (room first)

theorem turned_perm : (turned first kinds).Perm (handedOut first kinds) :=
  List.perm_append_comm.trans (.of_eq (List.take_append_drop _ _))

theorem sorted_turned (hround : kinds.length ≤ 2 ^ 64) : Ident.Sorted (turned first kinds) := by
  refine List.pairwise_append.mpr ⟨?_, ?_, fun a ha b hb => Ident.isLE_compare.mpr ?_⟩
  · refine List.pairwise_iff_getElem.mpr fun i j hi hj hij => Ident.isLE_compare.mpr ?_
    rw [(number_drop hround (List.getElem?_eq_getElem hi)).2,
      (number_drop hround (List.getElem?_eq_getElem hj)).2]
    exact Nat.le_of_lt hij
  · refine List.pairwise_iff_getElem.mpr fun i j hi hj hij => Ident.isLE_compare.mpr ?_
    rw [(number_take (List.getElem?_eq_getElem hi)).2,
      (number_take (List.getElem?_eq_getElem hj)).2]
    omega
  · obtain ⟨i, hi⟩ := List.getElem?_of_mem ha
    obtain ⟨j, hj⟩ := List.getElem?_of_mem hb
    obtain ⟨hbelow, hnumber⟩ := number_drop hround hi
    rw [hnumber, (number_take hj).2]
    omega

/-- Before the edge nothing is turned around. Behind it the last ident has a smaller number than the
    first one, which it comes before. -/
theorem turned_eq_iff (hround : kinds.length ≤ 2 ^ 64) :
    turned first kinds = handedOut first kinds ↔ first.toNat + kinds.length ≤ 2 ^ 64 := by
  have hlt := first.toNat_lt
  have hlen : (handedOut first kinds).length = kinds.length := length_handedOut
  constructor
  · intro heq
    by_contra hover
    have hsorted := heq ▸ sorted_turned hround
    have hlast : kinds.length - 1 < (handedOut first kinds).length := by omega
    have hle := Ident.isLE_compare.mp
      (List.pairwise_iff_getElem.mp hsorted 0 (kinds.length - 1) (by omega) hlast (by omega))
    rw [number_handedOut (List.getElem?_eq_getElem (by omega)),
      number_handedOut (List.getElem?_eq_getElem hlast)] at hle
    omega
  · intro hfits
    have hall : (handedOut first kinds).length ≤ room first := by rw [hlen, room]; omega
    rw [turned, List.drop_of_length_le hall, List.take_of_length_le hall, List.nil_append]

/-! ### Counting -/

theorem next_after : (after first kinds).next.toNat = (first.toNat + kinds.length) % 2 ^ 64 := by
  rw [after, takeAll_eq]
  simp [startingAt, UInt64.toNat_add, UInt64.toNat_ofNat']

theorem first_after : (after first kinds).first = first := by
  rw [after, takeAll_eq]
  rfl

/-- Short of a full round, the counter stands below its first number just when it has come around. -/
theorem first_le_next_iff (hround : kinds.length < 2 ^ 64) :
    first ≤ (after first kinds).next ↔ first.toNat + kinds.length < 2 ^ 64 := by
  have hlt := first.toNat_lt
  rw [UInt64.le_iff_toNat_le, next_after]
  omega

theorem toNat_taken (hroom : first.toNat + kinds.length < 2 ^ 64) :
    (after first kinds).taken.toNat = kinds.length := by
  have hle := (first_le_next_iff (by omega)).mpr hroom
  rw [taken, first_after, UInt64.toNat_sub_of_le _ _ hle, next_after, Nat.mod_eq_of_lt hroom]
  omega

/-- All about the idents that a counter hands out within one round. -/
structure Round (first : UInt64) (kinds : List String) : Prop where
  kind : (handedOut first kinds).map (·.kind) = kinds
  number : ∀ k a, (handedOut first kinds)[k]? = some a →
    a.number.toNat = (first.toNat + k) % 2 ^ 64
  distinct : (handedOut first kinds).Pairwise fun a b => a.number ≠ b.number ∧ (a == b) = false
  /-- There is one way only to sort them. -/
  sorted_iff : ∀ ids, ids.Perm (handedOut first kinds) →
    (Ident.Sorted ids ↔ ids = Ident.sort (handedOut first kinds))
  /-- Those from behind the edge come first, and before and behind it they stay in their order. -/
  sort : Ident.sort (handedOut first kinds) =
    (handedOut first kinds).drop (room first) ++ (handedOut first kinds).take (room first)
  sort_eq_iff : Ident.sort (handedOut first kinds) = handedOut first kinds ↔
    first.toNat + kinds.length ≤ 2 ^ 64
  taken : first.toNat + kinds.length < 2 ^ 64 → (after first kinds).taken.toNat = kinds.length
  /-- Counting goes below zero just where the counter has come around. -/
  above_iff : kinds.length < 2 ^ 64 →
    ((after first kinds).first ≤ (after first kinds).next ↔ first.toNat + kinds.length < 2 ^ 64)

/-- From every first number and for all kinds, one round of numbers goes up to the edge and on from
    zero. It tells all idents apart, and up to the edge it gives their order and their count. -/
theorem round_around_edge (first : UInt64) {kinds : List String} (hround : kinds.length ≤ 2 ^ 64) :
    Round first kinds := by
  have hnodup : ((handedOut first kinds).map (·.number)).Nodup := nodup_handedOut hround
  have hturned : ((turned first kinds).map (·.number)).Nodup :=
    (turned_perm.map _).nodup_iff.mpr hnodup
  have hunique : ∀ {ids}, ids.Perm (handedOut first kinds) → Ident.Sorted ids →
      ids = turned first kinds := fun hperm hsorted =>
    Ident.eq_of_sorted hturned (sorted_turned hround) hsorted (hperm.trans turned_perm.symm)
  have hsort : Ident.sort (handedOut first kinds) = turned first kinds :=
    hunique (List.mergeSort_perm _ _) (Ident.sorted_sort _)
  refine ⟨kind_handedOut, fun k a => number_handedOut, ?_, fun ids hperm => ?_, hsort, ?_,
    toNat_taken, ?_⟩
  · refine (List.pairwise_map.mp hnodup).imp fun {a b} hne => ⟨hne, ?_⟩
    show (a.number == b.number) = false
    exact beq_eq_false_iff_ne.mpr hne
  · rw [hsort]
    exact ⟨hunique hperm, fun h => h ▸ sorted_turned hround⟩
  · rw [hsort, turned_eq_iff hround]
  · rw [first_after]
    exact first_le_next_iff

/-- Two numbers before the edge and two behind it. -/
theorem four_around_edge : (["instance", "host", "group", "link"] : List String).length ≤ 2 ^ 64 ∧
    (Ident.sort (handedOut 18446744073709551614 ["instance", "host", "group", "link"])).map Ident.text =
      ["group_0", "link_1", "instance_18446744073709551614", "host_18446744073709551615"] := by
  refine ⟨by decide, ?_⟩
  rw [(round_around_edge 18446744073709551614 (by decide)).sort]
  decide +kernel

end Counter

end Schematic
