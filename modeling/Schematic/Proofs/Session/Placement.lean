import Schematic.Proofs.Session.Views

/-! What the two placements do, each said once in full. Putting a node into a group either changes
    nothing or takes the node out of every list of children and adds it at the end of one. Putting an
    instance on a host does the same with the lists of residents, and lets the host take over the
    place that the instance had in a group. -/

namespace Schematic

/-- Leaving out a value that is not there changes nothing. -/
theorem filter_of_not_mem {α : Type} [DecidableEq α] {xs : List α} {x : α} (hx : x ∉ xs) :
    xs.filter (· ≠ x) = xs := by
  refine List.filter_eq_self.mpr fun y hy => decide_eq_true ?_
  rintro rfl
  exact hx hy

namespace Session

/-- What holds what is written down on both sides, and the two sides agree. -/
structure Coherent (s : Session) : Prop where
  child_iff : ∀ n g, n ∈ s.children g ↔ s.groupOf? n = some g
  children_nodup : ∀ g, (s.children g).Nodup
  resident_iff : ∀ i h, i ∈ s.residents h ↔ s.hostOf? i = some h
  residents_nodup : ∀ h, (s.residents h).Nodup
  /-- An instance on a host is in no group. -/
  hosted : ∀ i h, s.hostOf? i = some h → s.groupOf? (.inst i) = none

/-- `t` is `s` with `m` put at the end of `g`. -/
structure Moved (s t : Session) (m : Node) (g : GroupKey) : Prop where
  groupOf : ∀ n, t.groupOf? n = if n = m then some g else s.groupOf? n
  children : ∀ k, t.children k = (s.children k).filter (· ≠ m) ++ if k = g then [m] else []
  hostOf : ∀ i, t.hostOf? i = s.hostOf? i
  residents : ∀ h, t.residents h = s.residents h

/-- The children of a group after host `h` has taken the place that instance `i` had in group `g`. -/
def handedOver (s : Session) (i : InstanceKey) (h : HostKey) (g : GroupKey) (k : GroupKey) :
    List Node :=
  if s.groupOf? (.host h) = some g then (s.children k).filter (· ≠ .inst i)
  else if k = g then (s.children k).map fun n => if n = .inst i then .host h else n
  else (s.children k).filter (· ≠ .host h)

/-- `t` is `s` with `i` put at the end of `h`. -/
structure Lodged (s t : Session) (i : InstanceKey) (h : HostKey) : Prop where
  hostOf : ∀ j, t.hostOf? j = if j = i then some h else s.hostOf? j
  residents : ∀ k, t.residents k = (s.residents k).filter (· ≠ i) ++ if k = h then [i] else []
  groupOf : ∀ n, t.groupOf? n =
    if n = .inst i then none
    else if n = .host h then (s.groupOf? (.inst i)).or (s.groupOf? n)
    else s.groupOf? n
  children : ∀ k, t.children k =
    match s.groupOf? (.inst i) with
    | none => s.children k
    | some g => s.handedOver i h g k

variable {s : Session}

theorem Coherent.hasHost (hs : s.Coherent) {i : InstanceKey} {h : HostKey}
    (hi : s.hostOf? i = some h) : s.HasHost h :=
  hasHost_of_resident ((hs.resident_iff i h).mpr hi)

theorem Coherent.hasGroup (hs : s.Coherent) {n : Node} {g : GroupKey}
    (hn : s.groupOf? n = some g) : s.HasGroup g :=
  hasGroup_of_child ((hs.child_iff n g).mpr hn)

/-! ### Putting a node into a group -/

theorem groupOf?_leaveGroup (n m : Node) :
    (s.leaveGroup n).groupOf? m = if m = n then none else s.groupOf? m := by
  rw [leaveGroup]
  cases hg : s.groupOf? n with
  | none =>
    by_cases h : m = n
    · rw [if_pos h, h]; exact hg
    · rw [if_neg h]
  | some g =>
    rw [groupOf?_setGroup (by simpa using hasNode_of_groupOf hg), groupOf?_modifyChildren]

/-- Where only its own group lists the node, no group lists it afterwards. -/
theorem children_leaveGroup {n : Node} (hn : ∀ k, n ∈ s.children k → s.groupOf? n = some k)
    (k : GroupKey) : (s.leaveGroup n).children k = (s.children k).filter (· ≠ n) := by
  have hfilter : s.groupOf? n ≠ some k → (s.children k).filter (· ≠ n) = s.children k :=
    fun hk => filter_of_not_mem fun hm => hk (hn k hm)
  rw [leaveGroup]
  cases hg : s.groupOf? n with
  | none => rw [hfilter (by simp [hg])]
  | some g =>
    rw [children_setGroup, children_modifyChildren (.inl rfl)]
    by_cases h : k = g
    · rw [if_pos h]
    · rw [if_neg h, hfilter (by rw [hg]; simpa using Ne.symm h)]

@[simp] theorem hostOf?_leaveGroup (n : Node) (i : InstanceKey) :
    (s.leaveGroup n).hostOf? i = s.hostOf? i := by
  rw [leaveGroup]; cases s.groupOf? n <;> simp

@[simp] theorem residents_leaveGroup (n : Node) (h : HostKey) :
    (s.leaveGroup n).residents h = s.residents h := by
  rw [leaveGroup]; cases s.groupOf? n <;> simp

@[simp] theorem hasNode_leaveGroup (n m : Node) : (s.leaveGroup n).HasNode m ↔ s.HasNode m := by
  rw [leaveGroup]; cases s.groupOf? n <;> simp

/-- A node that stands in for another one is there when that one is. -/
theorem hasNode_standIn (hs : s.Coherent) {n : Node} (hn : s.HasNode n) :
    s.HasNode (s.standIn n) := by
  cases n with
  | inst i =>
    rw [standIn]
    cases hi : s.hostOf? i with
    | none => exact hn
    | some h => exact hs.hasHost hi
  | host h => exact hn
  | group g => exact hn

theorem moved_leave_enter (hs : s.Coherent) {m : Node} {g : GroupKey} (hm : s.HasNode m)
    (hg : s.HasGroup g) : Moved s ((s.leaveGroup m).enterGroup m g) m g where
  groupOf n := by
    rw [enterGroup, groupOf?_setGroup (by simpa using hm), groupOf?_modifyChildren,
      groupOf?_leaveGroup]
    by_cases h : n = m
    · rw [if_pos h, if_pos h]
    · rw [if_neg h, if_neg h, if_neg h]
  children k := by
    have hg' : (s.leaveGroup m).HasNode (.group g) := (hasNode_leaveGroup m (.group g)).mpr hg
    rw [enterGroup, children_setGroup, children_modifyChildren (.inr hg'),
      children_leaveGroup fun k hk => (hs.child_iff m k).mp hk]
    by_cases h : k = g
    · rw [if_pos h, if_pos h]
    · rw [if_neg h, if_neg h, List.append_nil]
  hostOf i := by simp [enterGroup]
  residents h := by simp [enterGroup]

/-- Putting a node into a group changes nothing, when its stand-in is there already or would come to
    lie inside itself; otherwise it moves the stand-in. -/
theorem placeIn_cases (hs : s.Coherent) {n : Node} {g : GroupKey} (hn : s.HasNode n)
    (hg : s.HasGroup g) :
    ((s.groupOf? (s.standIn n) = some g ∨ s.encloses (s.standIn n) g = true) ∧
      s.placeIn n g = s) ∨
    (s.groupOf? (s.standIn n) ≠ some g ∧ s.encloses (s.standIn n) g = false ∧
      Moved s (s.placeIn n g) (s.standIn n) g) := by
  rw [placeIn]
  by_cases hthere : s.groupOf? (s.standIn n) = some g
  · exact .inl ⟨.inl hthere, if_pos hthere⟩
  rw [if_neg hthere]
  cases hself : s.encloses (s.standIn n) g with
  | true => exact .inl ⟨.inr rfl, if_pos rfl⟩
  | false =>
    rw [if_neg Bool.false_ne_true]
    exact .inr ⟨hthere, rfl, moved_leave_enter hs (hasNode_standIn hs hn) hg⟩

/-- Afterwards the stand-in is in the group, unless that would put it inside itself; all other nodes
    are where they were. -/
theorem groupOf?_placeIn (hs : s.Coherent) {n : Node} {g : GroupKey} (hn : s.HasNode n)
    (hg : s.HasGroup g) (m : Node) : (s.placeIn n g).groupOf? m =
      if m = s.standIn n ∧ s.encloses (s.standIn n) g = false then some g else s.groupOf? m := by
  rcases placeIn_cases hs hn hg with ⟨hthere | hself, hsame⟩ | ⟨-, hself, hmoved⟩
  · rw [hsame]
    by_cases hm : m = s.standIn n ∧ s.encloses (s.standIn n) g = false
    · rw [if_pos hm, hm.1, hthere]
    · rw [if_neg hm]
  · rw [hsame, hself, if_neg (by simp)]
  · rw [hmoved.groupOf, hself]
    simp

theorem hostOf?_placeIn (hs : s.Coherent) {n : Node} {g : GroupKey} (hn : s.HasNode n)
    (hg : s.HasGroup g) (i : InstanceKey) : (s.placeIn n g).hostOf? i = s.hostOf? i := by
  rcases placeIn_cases hs hn hg with ⟨-, hsame⟩ | ⟨-, -, hmoved⟩
  · rw [hsame]
  · exact hmoved.hostOf i

theorem residents_placeIn (hs : s.Coherent) {n : Node} {g : GroupKey} (hn : s.HasNode n)
    (hg : s.HasGroup g) (h : HostKey) : (s.placeIn n g).residents h = s.residents h := by
  rcases placeIn_cases hs hn hg with ⟨-, hsame⟩ | ⟨-, -, hmoved⟩
  · rw [hsame]
  · exact hmoved.residents h

/-! ### Putting an instance on a host -/

theorem swapOrAppend_of_mem {old new : Node} : ∀ {ns : List Node}, old ∈ ns → ns.Nodup →
    swapOrAppend old new ns = ns.map fun n => if n = old then new else n
  | [], hmem, _ => absurd hmem List.not_mem_nil
  | n :: ns, hmem, hnd => by
    rw [swapOrAppend, List.map_cons]
    by_cases h : n = old
    · subst h
      have hrest : ns.map (fun m => if m = n then new else m) = ns := by
        refine (List.map_congr_left fun m hm => if_neg ?_).trans (List.map_id ns)
        rintro rfl
        exact (List.nodup_cons.mp hnd).1 hm
      rw [if_pos rfl, if_pos rfl, hrest]
    · rw [if_neg h, if_neg h, swapOrAppend_of_mem ?_ (List.nodup_cons.mp hnd).2]
      exact (List.mem_cons.mp hmem).resolve_left (Ne.symm h)

/-- Where only its own host lists the instance, no host lists it afterwards. -/
theorem residents_leaveHost {i : InstanceKey} (hi : ∀ k, i ∈ s.residents k → s.hostOf? i = some k)
    (k : HostKey) : (s.leaveHost i).residents k = (s.residents k).filter (· ≠ i) := by
  have hfilter : s.hostOf? i ≠ some k → (s.residents k).filter (· ≠ i) = s.residents k :=
    fun hk => filter_of_not_mem fun hm => hk (hi k hm)
  rw [leaveHost]
  cases hh : s.hostOf? i with
  | none => rw [hfilter (by simp [hh])]
  | some h =>
    rw [residents_modifyResidents (.inl rfl)]
    by_cases e : k = h
    · rw [if_pos e]
    · rw [if_neg e, hfilter (by rw [hh]; simpa using Ne.symm e)]

@[simp] theorem hostOf?_leaveHost (i j : InstanceKey) :
    (s.leaveHost i).hostOf? j = s.hostOf? j := by
  rw [leaveHost]; cases s.hostOf? i <;> simp

@[simp] theorem groupOf?_leaveHost (i : InstanceKey) (n : Node) :
    (s.leaveHost i).groupOf? n = s.groupOf? n := by
  rw [leaveHost]; cases s.hostOf? i <;> simp

@[simp] theorem children_leaveHost (i : InstanceKey) (g : GroupKey) :
    (s.leaveHost i).children g = s.children g := by
  rw [leaveHost]; cases s.hostOf? i <;> simp

@[simp] theorem hasNode_leaveHost (i : InstanceKey) (n : Node) :
    (s.leaveHost i).HasNode n ↔ s.HasNode n := by
  rw [leaveHost]; cases s.hostOf? i <;> simp

@[simp] theorem hostOf?_yieldPlace (i : InstanceKey) (h : HostKey) (j : InstanceKey) :
    (s.yieldPlace i h).hostOf? j = s.hostOf? j := by
  rw [yieldPlace]
  cases s.groupOf? (.inst i) with
  | none => rfl
  | some g => simp only [takePlace]; split <;> simp

@[simp] theorem residents_yieldPlace (i : InstanceKey) (h k : HostKey) :
    (s.yieldPlace i h).residents k = s.residents k := by
  rw [yieldPlace]
  cases s.groupOf? (.inst i) with
  | none => rfl
  | some g => simp only [takePlace]; split <;> simp

@[simp] theorem hasNode_yieldPlace (i : InstanceKey) (h : HostKey) (n : Node) :
    (s.yieldPlace i h).HasNode n ↔ s.HasNode n := by
  rw [yieldPlace]
  cases s.groupOf? (.inst i) with
  | none => rfl
  | some g => simp only [takePlace]; split <;> simp

/-- The host comes to be in the group that the instance was in, if there was one. -/
theorem groupOf?_yieldPlace {i : InstanceKey} {h : HostKey} (hi : s.HasInstance i) (hh : s.HasHost h)
    (n : Node) : (s.yieldPlace i h).groupOf? n =
      if n = .inst i then none
      else if n = .host h then (s.groupOf? (.inst i)).or (s.groupOf? n)
      else s.groupOf? n := by
  have hleft := groupOf?_setGroup (s := s) (n := .inst i) hi none
  rw [yieldPlace]
  cases hg : s.groupOf? (.inst i) with
  | none =>
    by_cases hn : n = .inst i
    · rw [if_pos hn, hn]; exact hg
    · simp [hn]
  | some g =>
    have hhost := hleft (.host h)
    rw [if_neg (by simp)] at hhost
    simp only [takePlace, hhost]
    by_cases hthere : s.groupOf? (.host h) = some g
    · rw [if_pos hthere, groupOf?_modifyChildren, hleft]
      by_cases hn : n = .host h
      · subst hn; simp [hthere]
      · simp [hn]
    · have hh' : ((s.setGroup (.inst i) none).leaveGroup (.host h)).HasNode (.host h) := by
        rw [hasNode_leaveGroup, hasNode_setGroup]; exact hh
      rw [if_neg hthere, groupOf?_setGroup (by rwa [hasNode_modifyChildren]), groupOf?_modifyChildren,
        groupOf?_leaveGroup, hleft]
      by_cases hn : n = .host h
      · subst hn; simp
      · simp [hn]

theorem children_yieldPlace (hchild : ∀ n g, n ∈ s.children g ↔ s.groupOf? n = some g)
    (hnodup : ∀ g, (s.children g).Nodup) (i : InstanceKey) (h : HostKey) (k : GroupKey) :
    (s.yieldPlace i h).children k =
      match s.groupOf? (.inst i) with
      | none => s.children k
      | some g => s.handedOver i h g k := by
  rw [yieldPlace]
  cases hg : s.groupOf? (.inst i) with
  | none => rfl
  | some g =>
    have hmem : .inst i ∈ s.children g := (hchild _ _).mpr hg
    have hgroup : s.HasGroup g := hasGroup_of_child hmem
    have hi : s.HasNode (.inst i) := hasNode_of_groupOf hg
    have hleft := groupOf?_setGroup hi none (.host h)
    rw [if_neg (by simp)] at hleft
    simp only [takePlace, hleft, handedOver]
    by_cases hthere : s.groupOf? (.host h) = some g
    · rw [if_pos hthere, if_pos hthere, children_modifyChildren (.inl rfl), children_setGroup]
      by_cases hk : k = g
      · rw [if_pos hk]
      · have hfree : .inst i ∉ s.children k := fun hm =>
          hk (Option.some.inj (((hchild _ _).mp hm).symm.trans hg))
        rw [if_neg hk, filter_of_not_mem hfree]
    · have hgroup' : ((s.setGroup (.inst i) none).leaveGroup (.host h)).HasNode (.group g) := by
        rw [hasNode_leaveGroup, hasNode_setGroup]; exact hgroup
      have hhost : ∀ k, .host h ∈ (s.setGroup (.inst i) none).children k →
          (s.setGroup (.inst i) none).groupOf? (.host h) = some k := by
        intro k hk
        rw [children_setGroup] at hk
        rw [hleft]
        exact (hchild _ _).mp hk
      rw [if_neg hthere, if_neg hthere, children_setGroup, children_modifyChildren (.inr hgroup'),
        children_leaveGroup hhost, children_setGroup]
      by_cases hk : k = g
      · subst hk
        have hfree : .host h ∉ s.children k := fun hm => hthere ((hchild _ _).mp hm)
        rw [if_pos rfl, if_pos rfl, filter_of_not_mem hfree, swapOrAppend_of_mem hmem (hnodup _)]
      · rw [if_neg hk, if_neg hk]

theorem placeOn_of_there {i : InstanceKey} {h : HostKey} (hi : s.hostOf? i = some h) :
    s.placeOn i h = s := by
  rw [placeOn, if_pos hi]

/-- Putting an instance on a host that it is not on. -/
theorem lodged_placeOn (hs : s.Coherent) {i : InstanceKey} {h : HostKey} (hi : s.HasInstance i)
    (hh : s.HasHost h) (hne : s.hostOf? i ≠ some h) : Lodged s (s.placeOn i h) i h := by
  have hi₁ : (s.leaveHost i).HasNode (.inst i) := (hasNode_leaveHost i (.inst i)).mpr hi
  have hh₁ : (s.leaveHost i).HasNode (.host h) := (hasNode_leaveHost i (.host h)).mpr hh
  have hi₂ : ((s.leaveHost i).yieldPlace i h).HasNode (.inst i) :=
    (hasNode_yieldPlace i h (.inst i)).mpr hi₁
  have hh₂ : ((s.leaveHost i).yieldPlace i h).HasNode (.host h) :=
    (hasNode_yieldPlace i h (.host h)).mpr hh₁
  rw [placeOn, if_neg hne]
  constructor
  · intro j
    rw [hostOf?_enterHost hi₂, hostOf?_yieldPlace, hostOf?_leaveHost]
  · intro k
    rw [residents_enterHost hh₂, residents_yieldPlace,
      residents_leaveHost fun k hk => (hs.resident_iff i k).mp hk]
    by_cases e : k = h
    · rw [if_pos e, if_pos e]
    · rw [if_neg e, if_neg e, List.append_nil]
  · intro n
    rw [groupOf?_enterHost, groupOf?_yieldPlace hi₁ hh₁]
    simp only [groupOf?_leaveHost]
  · intro k
    rw [children_enterHost, children_yieldPlace (by simpa using hs.child_iff)
      (by simpa using hs.children_nodup)]
    simp only [groupOf?_leaveHost, handedOver, children_leaveHost]

end Session

end Schematic
