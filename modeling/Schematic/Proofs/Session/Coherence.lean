import Schematic.Proofs.Session.Placement

/-! The two sides of what holds what stay in agreement: both placements keep `Coherent`, and every
    other change leaves the nesting as it is. -/

namespace Schematic.Session

/-- `t` has the nesting of `s`. -/
structure SameNesting (s t : Session) : Prop where
  groupOf : ∀ n, t.groupOf? n = s.groupOf? n
  hostOf : ∀ i, t.hostOf? i = s.hostOf? i
  children : ∀ g, t.children g = s.children g
  residents : ∀ h, t.residents h = s.residents h

variable {s t : Session}

namespace SameNesting

theorem refl (s : Session) : SameNesting s s := ⟨fun _ => rfl, fun _ => rfl, fun _ => rfl, fun _ => rfl⟩

theorem trans {u : Session} (h : SameNesting s t) (h' : SameNesting t u) : SameNesting s u where
  groupOf n := (h'.groupOf n).trans (h.groupOf n)
  hostOf i := (h'.hostOf i).trans (h.hostOf i)
  children g := (h'.children g).trans (h.children g)
  residents k := (h'.residents k).trans (h.residents k)

end SameNesting

/-! ### Placements -/

/-- A value that is not in a list can come last in it. -/
theorem nodup_append_ite {α : Type} {xs : List α} {x : α} {p : Prop} [Decidable p]
    (hxs : xs.Nodup) (hx : x ∉ xs) : (xs ++ if p then [x] else []).Nodup := by
  by_cases hp : p
  · rw [if_pos hp, ← List.concat_eq_append]
    exact hxs.concat hx
  · rw [if_neg hp, List.append_nil]
    exact hxs

/-- The node that stands for another one in groups is no instance on a host. -/
theorem hostOf?_of_standIn {n : Node} {i : InstanceKey} (h : s.standIn n = .inst i) :
    s.hostOf? i = none := by
  cases n with
  | inst j =>
    rw [standIn] at h
    cases hj : s.hostOf? j with
    | none => rw [hj] at h; cases h; exact hj
    | some k => rw [hj] at h; cases h
  | host k => cases h
  | group g => cases h

theorem Moved.coherent (hs : s.Coherent) {m : Node} {g : GroupKey} (h : Moved s t m g)
    (hm : ∀ i, m = .inst i → s.hostOf? i = none) : t.Coherent where
  child_iff n k := by
    rw [h.children, h.groupOf, List.mem_append, List.mem_filter, hs.child_iff]
    by_cases hn : n = m
    · subst hn
      by_cases hk : k = g
      · simp [hk]
      · simp [hk, Ne.symm hk]
    · by_cases hk : k = g <;> simp [hn, hk]
  children_nodup k := by
    rw [h.children]
    exact nodup_append_ite ((hs.children_nodup k).filter _) (by simp)
  resident_iff i k := by rw [h.residents, h.hostOf, hs.resident_iff]
  residents_nodup k := by rw [h.residents]; exact hs.residents_nodup k
  hosted i k hi := by
    rw [h.hostOf] at hi
    rw [h.groupOf, if_neg, hs.hosted i k hi]
    rintro rfl
    rw [hm i rfl] at hi
    cases hi

/-- No group lists the instance any more; the host is listed where its group says. -/
theorem mem_handedOver (hs : s.Coherent) {i : InstanceKey} {h : HostKey} {g k : GroupKey}
    (hg : s.groupOf? (.inst i) = some g) (n : Node) :
    n ∈ s.handedOver i h g k ↔
      n ≠ .inst i ∧ if n = .host h then k = g else s.groupOf? n = some k := by
  rw [handedOver]
  by_cases hthere : s.groupOf? (.host h) = some g
  · rw [if_pos hthere, List.mem_filter, hs.child_iff, decide_eq_true_iff, and_comm]
    by_cases hn : n = .host h
    · subst hn
      rw [if_pos rfl, hthere, Option.some.injEq, eq_comm]
    · rw [if_neg hn]
  rw [if_neg hthere]
  by_cases hk : k = g
  · subst hk
    rw [if_pos rfl, List.mem_map]
    constructor
    · rintro ⟨m, hm, rfl⟩
      rw [hs.child_iff] at hm
      by_cases hmi : m = .inst i
      · simp [hmi]
      · rw [if_neg hmi]
        refine ⟨hmi, ?_⟩
        by_cases hmh : m = .host h
        · rw [if_pos hmh]
        · rw [if_neg hmh]; exact hm
    · rintro ⟨hni, hn⟩
      by_cases hnh : n = .host h
      · exact ⟨.inst i, (hs.child_iff _ _).mpr hg, by rw [if_pos rfl, hnh]⟩
      · rw [if_neg hnh] at hn
        exact ⟨n, (hs.child_iff _ _).mpr hn, if_neg hni⟩
  · rw [if_neg hk, List.mem_filter, hs.child_iff, decide_eq_true_iff]
    constructor
    · rintro ⟨hn, hnh⟩
      refine ⟨?_, by rw [if_neg hnh]; exact hn⟩
      rintro rfl
      exact hk (Option.some.inj (hn.symm.trans hg))
    · rintro ⟨-, hn⟩
      by_cases hnh : n = .host h
      · rw [if_pos hnh] at hn; exact absurd hn hk
      · rw [if_neg hnh] at hn; exact ⟨hn, hnh⟩

theorem nodup_handedOver (hs : s.Coherent) {i : InstanceKey} {h : HostKey} {g k : GroupKey} :
    (s.handedOver i h g k).Nodup := by
  rw [handedOver]
  by_cases hthere : s.groupOf? (.host h) = some g
  · rw [if_pos hthere]; exact (hs.children_nodup k).filter _
  rw [if_neg hthere]
  by_cases hk : k = g
  · subst hk
    rw [if_pos rfl]
    refine List.Nodup.map_on ?_ (hs.children_nodup k)
    -- the host is not among the children yet, so nothing else becomes equal to it
    have hno : ∀ m ∈ s.children k, m ≠ .host h := by
      rintro m hm rfl
      exact hthere ((hs.child_iff _ _).mp hm)
    intro m hm m' hm' he
    by_cases hmi : m = .inst i <;> by_cases hmi' : m' = .inst i
    · rw [hmi, hmi']
    · rw [if_pos hmi, if_neg hmi'] at he; exact absurd he.symm (hno m' hm')
    · rw [if_neg hmi, if_pos hmi'] at he; exact absurd he (hno m hm)
    · rw [if_neg hmi, if_neg hmi'] at he; exact he
  · rw [if_neg hk]; exact (hs.children_nodup k).filter _

theorem Lodged.coherent (hs : s.Coherent) {i : InstanceKey} {h : HostKey} (hl : Lodged s t i h) :
    t.Coherent where
  child_iff n k := by
    rw [hl.children, hl.groupOf]
    cases hg : s.groupOf? (.inst i) with
    | none =>
      simp only [hs.child_iff]
      by_cases hn : n = .inst i
      · subst hn; simp [hg]
      · simp [hn]
    | some g =>
      simp only [mem_handedOver hs hg]
      by_cases hn : n = .inst i
      · simp [hn]
      · by_cases hnh : n = .host h
        · simp [hnh, eq_comm]
        · simp [hn, hnh]
  children_nodup k := by
    rw [hl.children]
    cases s.groupOf? (.inst i) with
    | none => exact hs.children_nodup k
    | some g => exact nodup_handedOver hs
  resident_iff j k := by
    rw [hl.residents, hl.hostOf, List.mem_append, List.mem_filter, hs.resident_iff]
    by_cases hj : j = i
    · subst hj
      by_cases hk : k = h
      · simp [hk]
      · simp [hk, Ne.symm hk]
    · by_cases hk : k = h <;> simp [hj, hk]
  residents_nodup k := by
    rw [hl.residents]
    exact nodup_append_ite ((hs.residents_nodup k).filter _) (by simp)
  hosted j k hj := by
    rw [hl.groupOf]
    by_cases hji : j = i
    · rw [if_pos (by rw [hji])]
    · rw [hl.hostOf, if_neg hji] at hj
      rw [if_neg (by simpa using hji), if_neg (by simp), hs.hosted j k hj]

/-! ### Everything else -/

theorem SameNesting.coherent (h : SameNesting s t) (hs : s.Coherent) : t.Coherent where
  child_iff n g := by rw [h.children, h.groupOf]; exact hs.child_iff n g
  children_nodup g := by rw [h.children]; exact hs.children_nodup g
  resident_iff i k := by rw [h.residents, h.hostOf]; exact hs.resident_iff i k
  residents_nodup k := by rw [h.residents]; exact hs.residents_nodup k
  hosted i k hi := by rw [h.groupOf]; exact hs.hosted i k (by rw [← h.hostOf]; exact hi)

theorem sameNesting_modifyInstance {i : InstanceKey} {f : Instance → Instance}
    (hhost : ∀ x, (f x).host = x.host) (hgroup : ∀ x, (f x).group = x.group) :
    SameNesting s (s.modifyInstance i f) where
  groupOf := groupOf?_modifyInstance hgroup
  hostOf := hostOf?_modifyInstance hhost
  children _ := rfl
  residents _ := rfl

theorem sameNesting_modifyHost {h : HostKey} {f : Host → Host}
    (hgroup : ∀ x, (f x).group = x.group) (hinst : ∀ x, (f x).instances = x.instances) :
    SameNesting s (s.modifyHost h f) where
  groupOf := groupOf?_modifyHost hgroup
  hostOf _ := rfl
  children _ := rfl
  residents := residents_modifyHost hinst

theorem sameNesting_newInstance (name : String) : SameNesting s (s.newInstance name).2 where
  groupOf n := by
    cases n with
    | inst i =>
      simp only [groupOf?, instance?, newInstance, takeIdent, Array.getElem?_push]
      by_cases h : i.index = s.instances.size
      · simp [h]
      · simp [h]
    | host h => rfl
    | group g => rfl
  hostOf i := by
    simp only [hostOf?, instance?, newInstance, takeIdent, Array.getElem?_push]
    by_cases h : i.index = s.instances.size
    · simp [h]
    · simp [h]
  children _ := rfl
  residents _ := rfl

theorem sameNesting_newHost : SameNesting s s.newHost.2 where
  groupOf n := by
    cases n with
    | inst i => rfl
    | host h =>
      simp only [groupOf?, host?, newHost, takeIdent, Array.getElem?_push]
      by_cases e : h.index = s.hosts.size
      · simp [e]
      · simp [e]
    | group g => rfl
  hostOf _ := rfl
  children _ := rfl
  residents h := by
    simp only [residents, host?, newHost, takeIdent, Array.getElem?_push]
    by_cases e : h.index = s.hosts.size
    · simp [e]
    · simp [e]

theorem sameNesting_newGroup (name : Option String) : SameNesting s (s.newGroup name).2 where
  groupOf n := by
    cases n with
    | inst i => rfl
    | host h => rfl
    | group g =>
      simp only [groupOf?, group?, newGroup, takeIdent, Array.getElem?_push]
      by_cases e : g.index = s.groups.size
      · simp [e]
      · simp [e]
  hostOf _ := rfl
  children g := by
    simp only [children, group?, newGroup, takeIdent, Array.getElem?_push]
    by_cases e : g.index = s.groups.size
    · simp [e]
    · simp [e]
  residents _ := rfl

theorem sameNesting_newLink (source target : InstanceKey) (chain : Option ChainKey) :
    SameNesting s (s.newLink source target chain).2 := by
  cases chain <;> exact ⟨fun n => by cases n <;> rfl, fun _ => rfl, fun _ => rfl, fun _ => rfl⟩

theorem sameNesting_modify (l : LinkKey) (m : Modifier) : SameNesting s (s.modify l m) := by
  rw [modify]
  cases s.link? l <;> exact ⟨fun n => by cases n <;> rfl, fun _ => rfl, fun _ => rfl, fun _ => rfl⟩

end Schematic.Session
