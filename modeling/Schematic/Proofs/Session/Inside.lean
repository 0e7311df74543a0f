import Schematic.Proofs.Session.Reachable

/-! Looking inwards. What a container lists is just what has the container around it, so going inwards
    comes to an end where going outwards does: deeper in there are always more ancestors, and there
    are only so many. -/

namespace Schematic.Session

/-- The nodes directly inside a node, in order of arrival. -/
def inside (s : Session) : Node → List Node
  | .inst _ => []
  | .host h => (s.residents h).map .inst
  | .group g => s.children g

variable {s : Session}

theorem mem_inside_iff (hs : s.Coherent) {m n : Node} : m ∈ s.inside n ↔ s.outer? m = some n := by
  cases n with
  | inst i =>
    rw [inside]
    constructor
    · intro h; exact absurd h List.not_mem_nil
    · intro h; exact absurd h outer?_ne_inst
  | host h =>
    rw [inside, outer?_eq_host_iff, List.mem_map]
    constructor
    · rintro ⟨i, hi, rfl⟩
      exact ⟨i, rfl, (hs.resident_iff i h).mp hi⟩
    · rintro ⟨i, rfl, hi⟩
      exact ⟨i, (hs.resident_iff i h).mpr hi, rfl⟩
  | group g =>
    rw [inside, outer?_eq_group_iff hs]
    exact hs.child_iff m g

theorem nodup_inside (hs : s.Coherent) (n : Node) : (s.inside n).Nodup := by
  cases n with
  | inst i => exact List.nodup_nil
  | host h =>
    refine (hs.residents_nodup h).map ?_
    rintro i j ⟨⟩
    rfl
  | group g => exact hs.children_nodup g

/-- Where nothing is inside a node that is not there, only nodes that are there have an outside. -/
theorem hasNode_of_outer {m n : Node} (h : s.outer? m = some n) : s.HasNode m := by
  cases m with
  | inst i =>
    cases hi : s.hostOf? i with
    | some k => exact hasInstance_of_hostOf hi
    | none =>
      rw [outer?_unhosted (by rintro _ ⟨⟩; exact hi)] at h
      obtain ⟨g, hg, -⟩ := Option.map_eq_some_iff.mp h
      exact hasNode_of_groupOf hg
  | host k =>
    obtain ⟨g, hg, -⟩ := Option.map_eq_some_iff.mp h
    exact hasNode_of_groupOf hg
  | group k =>
    obtain ⟨g, hg, -⟩ := Option.map_eq_some_iff.mp h
    exact hasNode_of_groupOf hg

/-- A node has one ancestor more than the node around it. -/
theorem Sound.length_ancestors (hs : s.Sound) {m n : Node} (h : s.outer? m = some n) :
    (s.ancestors m).length = (s.ancestors n).length + 1 := by
  rw [ancestors_of_outer hs.coherent hs.grounded h, List.length_cons]

theorem Sound.length_ancestors_le (hs : s.Sound) (n : Node) :
    (s.ancestors n).length ≤ s.nestingBound :=
  climb_length_le hs.coherent (climb_ancestors hs.coherent hs.grounded n)

/-- A group that is there has fewer ancestors than there are groups. -/
theorem Sound.length_ancestors_group (hs : s.Sound) {g : GroupKey} (hg : s.HasGroup g) :
    (s.ancestors (.group g)).length < s.groups.size := by
  have hclimb := climb_ancestors hs.coherent hs.grounded (.group g)
  obtain ⟨gs, hgs, hin⟩ := climb_shape hs.coherent hclimb
  have hnodup : ((g :: gs).map Node.group).Nodup := by
    have := hclimb.nodup
    rwa [hgs] at this
  have hlen := length_le_of_groups (List.Nodup.of_map _ hnodup) (s := s) (by
    intro k hk
    rcases List.mem_cons.mp hk with rfl | hk
    · exact hg
    · exact hin k hk)
  have hhost : (s.hostAround (.group g)).length = 0 := rfl
  rw [List.length_cons] at hlen
  rw [hgs, List.length_append, List.length_map, hhost]
  omega

/-- Going inwards comes to an end. -/
theorem Sound.inside_wellFounded (hs : s.Sound) :
    WellFounded fun m n => s.outer? m = some n := by
  refine Subrelation.wf (r := fun m n => s.nestingBound - (s.ancestors m).length
    < s.nestingBound - (s.ancestors n).length) ?_ (measure _).wf
  intro m n h
  have hm := hs.length_ancestors_le m
  rw [hs.length_ancestors h] at hm ⊢
  omega

/-- What holds of a node when it holds of all nodes directly inside holds of every node. -/
theorem Sound.inside_induction (hs : s.Sound) {p : Node → Prop}
    (h : ∀ n, (∀ m ∈ s.inside n, p m) → p n) (n : Node) : p n :=
  hs.inside_wellFounded.induction n fun n ih =>
    h n fun m hm => ih m ((mem_inside_iff hs.coherent).mp hm)

/-! ### The outermost container -/

theorem Sound.outer?_outermost (hs : s.Sound) (n : Node) : s.outer? (s.outermost n) = none :=
  (climb_ancestors hs.coherent hs.grounded n).ends

/-- The outermost container is the only one on the way outwards that has nothing around it. -/
theorem Sound.eq_outermost_iff (hs : s.Sound) {r n : Node} :
    r = s.outermost n ↔ r ∈ n :: s.ancestors n ∧ s.outer? r = none := by
  constructor
  · rintro rfl
    exact ⟨Climb.last_mem _ _, hs.outer?_outermost n⟩
  · rintro ⟨hr, hnone⟩
    exact (climb_ancestors hs.coherent hs.grounded n).eq_last_of_mem hr hnone

theorem Sound.hasNode_ancestor (hs : s.Sound) {n m : Node} (hn : s.HasNode n)
    (hm : m ∈ n :: s.ancestors n) : s.HasNode m := by
  rcases List.mem_cons.mp hm with rfl | hm
  · exact hn
  · exact (climb_ancestors hs.coherent hs.grounded n).forall_mem
      (fun _ ho => hasNode_outer hs.coherent ho) hn m hm

theorem Sound.hasNode_outermost (hs : s.Sound) {n : Node} (hn : s.HasNode n) :
    s.HasNode (s.outermost n) :=
  hs.hasNode_ancestor hn (Climb.last_mem _ _)

end Schematic.Session
