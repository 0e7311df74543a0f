import Mathlib.Data.List.Perm.Subperm
import Schematic.Proofs.Climb
import Schematic.Proofs.Session.Coherence

/-! Nesting comes to an end. Going outwards from any node, through its host if it is an instance with
    one and then from group to group, one leaves every container after finitely many steps, and never
    comes to the same one twice. A placement that would break this is just the one that is refused. -/

namespace Schematic.Session

/-- From every node the way outwards comes to an end. -/
def Grounded (s : Session) : Prop := ∀ n, ∃ path, Climb s.outer? n path

/-- The host around a node, which only an instance can have. -/
def hostAround (s : Session) : Node → List Node
  | .inst i => (s.hostOf? i).toList.map .host
  | _ => []

variable {s t : Session}

/-! ### One step outwards -/

theorem outer?_hosted {i : InstanceKey} {h : HostKey} (hi : s.hostOf? i = some h) :
    s.outer? (.inst i) = some (.host h) := by
  simp only [outer?, hi]

theorem outer?_unhosted {n : Node} (hn : ∀ i, n = .inst i → s.hostOf? i = none) :
    s.outer? n = (s.groupOf? n).map .group := by
  cases n with
  | inst i => simp only [outer?, hn i rfl]
  | host h => rfl
  | group g => rfl

theorem outer?_eq_host_iff {n : Node} {h : HostKey} :
    s.outer? n = some (.host h) ↔ ∃ i, n = .inst i ∧ s.hostOf? i = some h := by
  constructor
  · intro ho
    cases n with
    | inst i =>
      cases hi : s.hostOf? i with
      | none => rw [outer?_unhosted (by rintro _ ⟨⟩; exact hi)] at ho; simp at ho
      | some k =>
        rw [outer?_hosted hi, Option.some.injEq, Node.host.injEq] at ho
        exact ⟨i, rfl, by rw [hi, ho]⟩
    | host k => simp [outer?] at ho
    | group g => simp [outer?] at ho
  · rintro ⟨i, rfl, hi⟩
    exact outer?_hosted hi

theorem outer?_eq_group_iff (hs : s.Coherent) {n : Node} {g : GroupKey} :
    s.outer? n = some (.group g) ↔ s.groupOf? n = some g := by
  cases n with
  | inst i =>
    cases hi : s.hostOf? i with
    | none => rw [outer?_unhosted (by rintro _ ⟨⟩; exact hi)]; simp
    | some k => rw [outer?_hosted hi, hs.hosted i k hi]; simp
  | host h => simp [outer?]
  | group k => simp [outer?]

theorem outer?_ne_inst {n : Node} {i : InstanceKey} : s.outer? n ≠ some (.inst i) := by
  intro ho
  cases n with
  | inst j =>
    cases hj : s.hostOf? j with
    | none => rw [outer?_unhosted (by rintro _ ⟨⟩; exact hj)] at ho; simp at ho
    | some k => rw [outer?_hosted hj] at ho; simp at ho
  | host h => simp [outer?] at ho
  | group g => simp [outer?] at ho

/-- What is around a node is there. -/
theorem hasNode_outer (hs : s.Coherent) {n o : Node} (h : s.outer? n = some o) : s.HasNode o := by
  cases o with
  | inst i => exact absurd h outer?_ne_inst
  | host k =>
    obtain ⟨i, -, hi⟩ := outer?_eq_host_iff.mp h
    exact hs.hasHost hi
  | group g => exact hs.hasGroup ((outer?_eq_group_iff hs).mp h)

/-! ### The whole way -/

/-- The way outwards goes to the host, if there is one, and then through groups only. -/
theorem climb_shape (hs : s.Coherent) : ∀ {path : List Node} {n : Node}, Climb s.outer? n path →
    ∃ gs : List GroupKey, path = s.hostAround n ++ gs.map .group ∧ ∀ g ∈ gs, s.HasGroup g
  | [], n, h => by
    refine ⟨[], ?_, by simp⟩
    cases n with
    | inst i =>
      cases hi : s.hostOf? i with
      | none => simp [hostAround, hi]
      | some k => rw [Climb, outer?_hosted hi] at h; cases h
    | host k => rfl
    | group g => rfl
  | o :: path, n, ⟨ho, hrest⟩ => by
    obtain ⟨gs, hgs, hin⟩ := climb_shape hs hrest
    cases o with
    | inst i => exact absurd ho outer?_ne_inst
    | host k =>
      obtain ⟨i, rfl, hi⟩ := outer?_eq_host_iff.mp ho
      exact ⟨gs, by rw [hgs]; simp [hostAround, hi], hin⟩
    | group g =>
      have hg := (outer?_eq_group_iff hs).mp ho
      have hfree : s.hostAround n = [] := by
        cases n with
        | inst i =>
          cases hi : s.hostOf? i with
          | none => simp [hostAround, hi]
          | some k => rw [hs.hosted i k hi] at hg; cases hg
        | host k => rfl
        | group k => rfl
      refine ⟨g :: gs, by rw [hgs, hfree]; simp [hostAround], ?_⟩
      intro k hk
      rcases List.mem_cons.mp hk with rfl | hk
      · exact hs.hasGroup hg
      · exact hin k hk

/-- There are no more different groups than the session has. -/
theorem length_le_of_groups {gs : List GroupKey} (hnodup : gs.Nodup)
    (hin : ∀ g ∈ gs, s.HasGroup g) : gs.length ≤ s.groups.size := by
  have hindices : (gs.map (·.index)).Nodup := by
    refine List.Nodup.map_on ?_ hnodup
    rintro ⟨a⟩ - ⟨b⟩ - hab
    exact congrArg _ hab
  have hsub : gs.map (·.index) ⊆ List.range s.groups.size := by
    intro k hk
    obtain ⟨g, hg, rfl⟩ := List.mem_map.mp hk
    exact List.mem_range.mpr (hin g hg)
  have hlen := (hindices.subperm hsub).length_le
  rwa [List.length_map, List.length_range] at hlen

theorem length_hostAround_le (s : Session) (n : Node) : (s.hostAround n).length ≤ 1 := by
  cases n with
  | inst i => cases hi : s.hostOf? i <;> simp [hostAround, hi]
  | host k => simp [hostAround]
  | group g => simp [hostAround]

/-- As many steps as there are groups, and one for the host, lead out of everything. -/
theorem climb_length_le (hs : s.Coherent) {n : Node} {path : List Node}
    (h : Climb s.outer? n path) : path.length ≤ s.nestingBound := by
  obtain ⟨gs, rfl, hin⟩ := climb_shape hs h
  have hgs : (gs.map Node.group).Nodup :=
    (List.nodup_append.mp (List.nodup_cons.mp h.nodup).2).2.1
  have hlen := length_le_of_groups (List.Nodup.of_map _ hgs) hin
  have hhost := s.length_hostAround_le n
  rw [List.length_append, List.length_map, nestingBound]
  omega

theorem ancestorsUpTo_eq : ∀ {path : List Node} {n : Node} {bound : Nat},
    Climb s.outer? n path → path.length ≤ bound → s.ancestorsUpTo bound n = path
  | [], _, 0, _, _ => rfl
  | [], _, _ + 1, h, _ => by
    have : s.outer? _ = none := h
    rw [ancestorsUpTo, this]
  | _ :: _, _, 0, _, hb => absurd hb (by simp)
  | _ :: _, _, _ + 1, h, hb => by
    rw [ancestorsUpTo, h.1]
    simp only [ancestorsUpTo_eq h.2 (Nat.le_of_succ_le_succ hb)]

theorem ancestors_eq (hs : s.Coherent) {n : Node} {path : List Node} (h : Climb s.outer? n path) :
    s.ancestors n = path :=
  ancestorsUpTo_eq h (climb_length_le hs h)

/-- The ancestors of a node are the whole way outwards from it. -/
theorem climb_ancestors (hs : s.Coherent) (hg : s.Grounded) (n : Node) :
    Climb s.outer? n (s.ancestors n) := by
  obtain ⟨path, hpath⟩ := hg n
  rw [ancestors_eq hs hpath]
  exact hpath

/-- One step outwards takes one ancestor away. -/
theorem ancestors_of_outer (hs : s.Coherent) (hg : s.Grounded) {n o : Node}
    (h : s.outer? n = some o) : s.ancestors n = o :: s.ancestors o :=
  ancestors_eq hs ⟨h, climb_ancestors hs hg o⟩

theorem ancestors_of_outermost (hs : s.Coherent) {n : Node} (h : s.outer? n = none) :
    s.ancestors n = [] :=
  ancestors_eq hs h

/-! ### Placements -/

/-- Only the way outwards between groups matters: hosts and instances are never around a group. -/
theorem grounded_of_groups (hs : s.Coherent) (hg : s.Grounded)
    (heq : ∀ k, t.groupOf? (.group k) = s.groupOf? (.group k)) : t.Grounded := by
  have hgroup : ∀ k, ∃ path, Climb t.outer? (.group k) path := by
    intro k
    obtain ⟨path, hpath⟩ := hg (.group k)
    refine ⟨path, hpath.congr fun n hn => ?_⟩
    obtain ⟨gs, rfl, -⟩ := climb_shape hs hpath
    have hk : ∃ g, n = .group g := by
      rcases List.mem_cons.mp hn with rfl | hn
      · exact ⟨k, rfl⟩
      · obtain ⟨g, -, rfl⟩ := List.mem_map.mp (by simpa [hostAround] using hn)
        exact ⟨g, rfl⟩
    obtain ⟨g, rfl⟩ := hk
    simp only [outer?, heq]
  have hhost : ∀ k, ∃ path, Climb t.outer? (.host k) path := by
    intro k
    refine Climb.exists_of_next fun o ho => ?_
    cases o with
    | inst i => exact absurd ho outer?_ne_inst
    | host l => obtain ⟨i, hi, -⟩ := outer?_eq_host_iff.mp ho; cases hi
    | group g => exact hgroup g
  intro n
  refine Climb.exists_of_next fun o ho => ?_
  cases o with
  | inst i => exact absurd ho outer?_ne_inst
  | host k => exact hhost k
  | group g => exact hgroup g

theorem Moved.outer? {m : Node} {g : GroupKey} (h : Moved s t m g)
    (hm : ∀ i, m = .inst i → s.hostOf? i = none) (n : Node) :
    t.outer? n = if n = m then some (.group g) else s.outer? n := by
  by_cases hn : n = m
  · subst hn
    rw [outer?_unhosted (fun i hi => by rw [h.hostOf]; exact hm i hi), h.groupOf, if_pos rfl,
      if_pos rfl, Option.map_some]
  · rw [if_neg hn]
    cases n with
    | inst i => simp only [Session.outer?, h.hostOf, h.groupOf, if_neg hn]
    | host k => simp only [Session.outer?, h.groupOf, if_neg hn]
    | group k => simp only [Session.outer?, h.groupOf, if_neg hn]

/-- What a group does not come to lie inside is not around it. -/
theorem not_mem_of_encloses {m : Node} {g : GroupKey} (hs : s.Coherent) {path : List Node}
    (hpath : Climb s.outer? (.group g) path) (h : s.encloses m g = false) :
    m ∉ .group g :: path := by
  intro hm
  cases m with
  | group k =>
    rw [encloses, Bool.or_eq_false_iff, decide_eq_false_iff_not, ancestors_eq hs hpath,
      List.contains_eq_mem, decide_eq_false_iff_not] at h
    rcases List.mem_cons.mp hm with he | hm
    · exact h.1 he
    · exact h.2 hm
  | inst i =>
    obtain ⟨gs, rfl, -⟩ := climb_shape hs hpath
    simp [hostAround] at hm
  | host k =>
    obtain ⟨gs, rfl, -⟩ := climb_shape hs hpath
    simp [hostAround] at hm

/-- A move that puts no group inside itself leaves every way outwards finite. -/
theorem Moved.grounded (hs : s.Coherent) (hg : s.Grounded) {m : Node} {g : GroupKey}
    (h : Moved s t m g) (hm : ∀ i, m = .inst i → s.hostOf? i = none)
    (hself : s.encloses m g = false) : t.Grounded := by
  obtain ⟨up, hup⟩ := hg (.group g)
  have hfree := not_mem_of_encloses hs hup hself
  have heq : ∀ n, n ≠ m → t.outer? n = s.outer? n := fun n hn => by
    rw [h.outer? hm, if_neg hn]
  have hon : Climb t.outer? m (.group g :: up) := by
    refine ⟨by rw [h.outer? hm, if_pos rfl], hup.congr fun n hn => heq n ?_⟩
    rintro rfl
    exact hfree hn
  intro n
  obtain ⟨path, hpath⟩ := hg n
  exact Climb.exists_of_rehung heq hon hpath

theorem Lodged.grounded (hs : s.Coherent) (hg : s.Grounded) {i : InstanceKey} {h : HostKey}
    (hl : Lodged s t i h) : t.Grounded :=
  grounded_of_groups hs hg fun k => by
    rw [hl.groupOf, if_neg (by simp), if_neg (by simp)]

theorem SameNesting.grounded (hs : s.Coherent) (hg : s.Grounded) (h : SameNesting s t) :
    t.Grounded :=
  grounded_of_groups hs hg fun k => h.groupOf (.group k)

end Schematic.Session
