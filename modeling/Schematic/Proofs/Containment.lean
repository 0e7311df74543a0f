import Schematic.Proofs.Builder

/-! What holds what, in every session that was built. Containment is written down twice, with the
    container and with what is in it; the two always say the same, so nothing is ever in two places
    or twice in one, and an instance on a host is nowhere else. -/

namespace Schematic.Session

/-- In a list without repetition a value is there once or not at all. -/
theorem count_eq_ite {α : Type} [DecidableEq α] {xs : List α} {x : α} {p : Prop} [Decidable p]
    (hnodup : xs.Nodup) (hmem : x ∈ xs ↔ p) : xs.count x = if p then 1 else 0 := by
  by_cases hp : p
  · rw [if_pos hp]; exact List.count_eq_one_of_mem hnodup (hmem.mpr hp)
  · rw [if_neg hp]; exact List.count_eq_zero_of_not_mem fun hx => hp (hmem.mp hx)

/-- A group lists a node as often as the node says it is in that group, that is once or never; the
    same goes for hosts and instances. An instance on a host is in no group, and every key that is
    written down names something. -/
theorem containment_agrees {s : Session} (hs : s.Built) :
    (∀ n g, (s.children g).count n = if s.groupOf? n = some g then 1 else 0) ∧
    (∀ i h, (s.residents h).count i = if s.hostOf? i = some h then 1 else 0) ∧
    (∀ i h, s.hostOf? i = some h →
      s.groupOf? (.inst i) = none ∧ ∀ g, Node.inst i ∉ s.children g) ∧
    (∀ g, ∀ n ∈ s.children g, s.HasNode n ∧ s.HasGroup g) ∧
    (∀ h, ∀ i ∈ s.residents h, s.HasInstance i ∧ s.HasHost h) ∧
    (∀ n g, s.groupOf? n = some g → s.HasNode n ∧ s.HasGroup g) ∧
    (∀ i h, s.hostOf? i = some h → s.HasInstance i ∧ s.HasHost h) := by
  have hc := hs.sound.coherent
  refine ⟨?_, ?_, ?_, ?_, ?_, ?_, ?_⟩
  · intro n g
    exact count_eq_ite (hc.children_nodup g) (hc.child_iff n g)
  · intro i h
    exact count_eq_ite (hc.residents_nodup h) (hc.resident_iff i h)
  · intro i h hi
    have hfree := hc.hosted i h hi
    refine ⟨hfree, fun g hg => ?_⟩
    rw [hc.child_iff, hfree] at hg
    cases hg
  · intro g n hn
    exact ⟨hasNode_of_groupOf ((hc.child_iff n g).mp hn), hasGroup_of_child hn⟩
  · intro h i hi
    exact ⟨hasInstance_of_hostOf ((hc.resident_iff i h).mp hi), hasHost_of_resident hi⟩
  · intro n g hn
    exact ⟨hasNode_of_groupOf hn, hc.hasGroup hn⟩
  · intro i h hi
    exact ⟨hasInstance_of_hostOf hi, hc.hasHost hi⟩

/-- The host of `nested` is once in the group whose place it took, and the instance it took it from
    is there no longer. -/
theorem nested_containment : nested.Built ∧ (nested.children ⟨1⟩).count (.host ⟨0⟩) = 1 ∧
    (nested.children ⟨1⟩).count (.inst ⟨0⟩) = 0 ∧ (nested.residents ⟨0⟩).count ⟨0⟩ = 1 := by
  obtain ⟨hchildren, hresidents, -⟩ := containment_agrees nested_built
  refine ⟨nested_built, ?_, ?_, ?_⟩
  · rw [hchildren, if_pos (by decide)]
  · rw [hchildren, if_neg (by decide)]
  · rw [hresidents, if_pos (by decide)]

end Schematic.Session
