import Mathlib.Data.List.Nodup
import Schematic.Session.Step

/-! What single changes do to the nesting of a session, seen through four views: the group and the
    host written down with a node, and the lists of children and of residents. Everything that is
    said about placements is put together from these facts. -/

namespace Schematic.Session

variable {s : Session}

/-! ### What is there -/

theorem hasInstance_iff {i : InstanceKey} : s.HasInstance i ↔ ∃ inst, s.instance? i = some inst := by
  rw [HasInstance, instance?]
  constructor
  · intro h; exact ⟨_, Array.getElem?_eq_getElem h⟩
  · rintro ⟨inst, h⟩; exact (Array.getElem?_eq_some_iff.mp h).1

theorem hasHost_iff {h : HostKey} : s.HasHost h ↔ ∃ host, s.host? h = some host := by
  rw [HasHost, host?]
  constructor
  · intro h; exact ⟨_, Array.getElem?_eq_getElem h⟩
  · rintro ⟨host, h⟩; exact (Array.getElem?_eq_some_iff.mp h).1

theorem hasGroup_iff {g : GroupKey} : s.HasGroup g ↔ ∃ group, s.group? g = some group := by
  rw [HasGroup, group?]
  constructor
  · intro h; exact ⟨_, Array.getElem?_eq_getElem h⟩
  · rintro ⟨group, h⟩; exact (Array.getElem?_eq_some_iff.mp h).1

theorem hasLink_iff {l : LinkKey} : s.HasLink l ↔ ∃ link, s.link? l = some link := by
  rw [HasLink, link?]
  constructor
  · intro h; exact ⟨_, Array.getElem?_eq_getElem h⟩
  · rintro ⟨link, h⟩; exact (Array.getElem?_eq_some_iff.mp h).1

/-- Only a node that is there is in a group. -/
theorem hasNode_of_groupOf {n : Node} {g : GroupKey} (h : s.groupOf? n = some g) : s.HasNode n := by
  cases n with
  | inst i =>
    obtain ⟨inst, hinst, -⟩ := Option.bind_eq_some_iff.mp h
    exact hasInstance_iff.mpr ⟨inst, hinst⟩
  | host k =>
    obtain ⟨host, hhost, -⟩ := Option.bind_eq_some_iff.mp h
    exact hasHost_iff.mpr ⟨host, hhost⟩
  | group k =>
    obtain ⟨group, hgroup, -⟩ := Option.bind_eq_some_iff.mp h
    exact hasGroup_iff.mpr ⟨group, hgroup⟩

/-- Only an instance that is there is on a host. -/
theorem hasInstance_of_hostOf {i : InstanceKey} {h : HostKey} (hi : s.hostOf? i = some h) :
    s.HasInstance i := by
  obtain ⟨inst, hinst, -⟩ := Option.bind_eq_some_iff.mp hi
  exact hasInstance_iff.mpr ⟨inst, hinst⟩

/-- Only a host that is there has residents. -/
theorem hasHost_of_resident {i : InstanceKey} {h : HostKey} (hi : i ∈ s.residents h) :
    s.HasHost h := by
  rw [hasHost_iff]
  cases hh : s.host? h with
  | none => simp [residents, hh] at hi
  | some host => exact ⟨host, rfl⟩

/-- Only a group that is there has children. -/
theorem hasGroup_of_child {n : Node} {g : GroupKey} (hn : n ∈ s.children g) : s.HasGroup g := by
  rw [hasGroup_iff]
  cases hg : s.group? g with
  | none => simp [children, hg] at hn
  | some group => exact ⟨group, rfl⟩

/-! ### Changing one element -/

theorem instance?_modifyInstance (i j : InstanceKey) (f : Instance → Instance) :
    (s.modifyInstance i f).instance? j = if i = j then (s.instance? j).map f else s.instance? j := by
  rw [instance?, modifyInstance, Array.getElem?_modify]
  by_cases h : i = j
  · rw [if_pos h, if_pos (congrArg _ h)]; rfl
  · rw [if_neg h, if_neg fun e => h (by cases i; cases j; exact congrArg _ e)]; rfl

theorem host?_modifyHost (h k : HostKey) (f : Host → Host) :
    (s.modifyHost h f).host? k = if h = k then (s.host? k).map f else s.host? k := by
  rw [host?, modifyHost, Array.getElem?_modify]
  by_cases hk : h = k
  · rw [if_pos hk, if_pos (congrArg _ hk)]; rfl
  · rw [if_neg hk, if_neg fun e => hk (by cases h; cases k; exact congrArg _ e)]; rfl

theorem group?_modifyGroup (g k : GroupKey) (f : Group → Group) :
    (s.modifyGroup g f).group? k = if g = k then (s.group? k).map f else s.group? k := by
  rw [group?, modifyGroup, Array.getElem?_modify]
  by_cases hk : g = k
  · rw [if_pos hk, if_pos (congrArg _ hk)]; rfl
  · rw [if_neg hk, if_neg fun e => hk (by cases g; cases k; exact congrArg _ e)]; rfl

theorem link?_modifyLink (l k : LinkKey) (f : Link → Link) :
    (s.modifyLink l f).link? k = if l = k then (s.link? k).map f else s.link? k := by
  rw [link?, modifyLink, Array.getElem?_modify]
  by_cases hk : l = k
  · rw [if_pos hk, if_pos (congrArg _ hk)]; rfl
  · rw [if_neg hk, if_neg fun e => hk (by cases l; cases k; exact congrArg _ e)]; rfl

@[simp] theorem instance?_modifyHost (h : HostKey) (f : Host → Host) (i : InstanceKey) :
    (s.modifyHost h f).instance? i = s.instance? i := rfl

@[simp] theorem instance?_modifyGroup (g : GroupKey) (f : Group → Group) (i : InstanceKey) :
    (s.modifyGroup g f).instance? i = s.instance? i := rfl

@[simp] theorem host?_modifyInstance (i : InstanceKey) (f : Instance → Instance) (h : HostKey) :
    (s.modifyInstance i f).host? h = s.host? h := rfl

@[simp] theorem host?_modifyGroup (g : GroupKey) (f : Group → Group) (h : HostKey) :
    (s.modifyGroup g f).host? h = s.host? h := rfl

@[simp] theorem group?_modifyInstance (i : InstanceKey) (f : Instance → Instance) (g : GroupKey) :
    (s.modifyInstance i f).group? g = s.group? g := rfl

@[simp] theorem group?_modifyHost (h : HostKey) (f : Host → Host) (g : GroupKey) :
    (s.modifyHost h f).group? g = s.group? g := rfl

theorem hasNode_modifyInstance (i : InstanceKey) (f : Instance → Instance) (n : Node) :
    (s.modifyInstance i f).HasNode n ↔ s.HasNode n := by
  cases n <;> simp [HasNode, HasInstance, HasHost, HasGroup, modifyInstance]

theorem hasNode_modifyHost (h : HostKey) (f : Host → Host) (n : Node) :
    (s.modifyHost h f).HasNode n ↔ s.HasNode n := by
  cases n <;> simp [HasNode, HasInstance, HasHost, HasGroup, modifyHost]

theorem hasNode_modifyGroup (g : GroupKey) (f : Group → Group) (n : Node) :
    (s.modifyGroup g f).HasNode n ↔ s.HasNode n := by
  cases n <;> simp [HasNode, HasInstance, HasHost, HasGroup, modifyGroup]

/-! ### Changes that leave a view alone -/

theorem hostOf?_modifyInstance {i : InstanceKey} {f : Instance → Instance}
    (hf : ∀ x, (f x).host = x.host) (j : InstanceKey) :
    (s.modifyInstance i f).hostOf? j = s.hostOf? j := by
  rw [hostOf?, instance?_modifyInstance]
  by_cases h : i = j
  · rw [if_pos h, hostOf?]; cases s.instance? j <;> simp [hf]
  · rw [if_neg h, hostOf?]

theorem groupOf?_modifyInstance {i : InstanceKey} {f : Instance → Instance}
    (hf : ∀ x, (f x).group = x.group) (n : Node) :
    (s.modifyInstance i f).groupOf? n = s.groupOf? n := by
  cases n with
  | inst j =>
    simp only [groupOf?, instance?_modifyInstance]
    by_cases h : i = j
    · rw [if_pos h]; cases s.instance? j <;> simp [hf]
    · rw [if_neg h]
  | host k => rfl
  | group k => rfl

theorem groupOf?_modifyHost {h : HostKey} {f : Host → Host} (hf : ∀ x, (f x).group = x.group)
    (n : Node) : (s.modifyHost h f).groupOf? n = s.groupOf? n := by
  cases n with
  | inst i => rfl
  | host k =>
    simp only [groupOf?, host?_modifyHost]
    by_cases hk : h = k
    · rw [if_pos hk]; cases s.host? k <;> simp [hf]
    · rw [if_neg hk]
  | group k => rfl

theorem groupOf?_modifyGroup {g : GroupKey} {f : Group → Group} (hf : ∀ x, (f x).group = x.group)
    (n : Node) : (s.modifyGroup g f).groupOf? n = s.groupOf? n := by
  cases n with
  | inst i => rfl
  | host k => rfl
  | group k =>
    simp only [groupOf?, group?_modifyGroup]
    by_cases hk : g = k
    · rw [if_pos hk]; cases s.group? k <;> simp [hf]
    · rw [if_neg hk]

theorem residents_modifyHost {h : HostKey} {f : Host → Host}
    (hf : ∀ x, (f x).instances = x.instances) (k : HostKey) :
    (s.modifyHost h f).residents k = s.residents k := by
  rw [residents, host?_modifyHost]
  by_cases hk : h = k
  · rw [if_pos hk, residents]; cases s.host? k <;> simp [hf]
  · rw [if_neg hk, residents]

theorem children_modifyGroup {g : GroupKey} {f : Group → Group}
    (hf : ∀ x, (f x).children = x.children) (k : GroupKey) :
    (s.modifyGroup g f).children k = s.children k := by
  rw [children, group?_modifyGroup]
  by_cases hk : g = k
  · rw [if_pos hk, children]; cases s.group? k <;> simp [hf]
  · rw [if_neg hk, children]

/-! ### The group written down with a node -/

theorem groupOf?_setGroup {n : Node} (hn : s.HasNode n) (g : Option GroupKey) (m : Node) :
    (s.setGroup n g).groupOf? m = if m = n then g else s.groupOf? m := by
  cases n with
  | inst i =>
    obtain ⟨inst, hinst⟩ := hasInstance_iff.mp hn
    cases m with
    | inst j =>
      simp only [setGroup, groupOf?, instance?_modifyInstance, Node.inst.injEq]
      by_cases h : j = i
      · subst h; simp [hinst]
      · rw [if_neg (Ne.symm h), if_neg h]
    | host k => rfl
    | group k => rfl
  | host k =>
    obtain ⟨host, hhost⟩ := hasHost_iff.mp hn
    cases m with
    | inst j => rfl
    | host l =>
      simp only [setGroup, groupOf?, host?_modifyHost, Node.host.injEq]
      by_cases h : l = k
      · subst h; simp [hhost]
      · rw [if_neg (Ne.symm h), if_neg h]
    | group l => rfl
  | group k =>
    obtain ⟨group, hgroup⟩ := hasGroup_iff.mp hn
    cases m with
    | inst j => rfl
    | host l => rfl
    | group l =>
      simp only [setGroup, groupOf?, group?_modifyGroup, Node.group.injEq]
      by_cases h : l = k
      · subst h; simp [hgroup]
      · rw [if_neg (Ne.symm h), if_neg h]

@[simp] theorem hostOf?_setGroup (n : Node) (g : Option GroupKey) (i : InstanceKey) :
    (s.setGroup n g).hostOf? i = s.hostOf? i := by
  cases n with
  | inst j => exact hostOf?_modifyInstance (by intro _; rfl) i
  | host k => rfl
  | group k => rfl

@[simp] theorem residents_setGroup (n : Node) (g : Option GroupKey) (h : HostKey) :
    (s.setGroup n g).residents h = s.residents h := by
  cases n with
  | inst j => rfl
  | host k => exact residents_modifyHost (by intro _; rfl) h
  | group k => rfl

@[simp] theorem children_setGroup (n : Node) (g : Option GroupKey) (k : GroupKey) :
    (s.setGroup n g).children k = s.children k := by
  cases n with
  | inst j => rfl
  | host l => rfl
  | group l => exact children_modifyGroup (by intro _; rfl) k

@[simp] theorem hasNode_setGroup (n : Node) (g : Option GroupKey) (m : Node) :
    (s.setGroup n g).HasNode m ↔ s.HasNode m := by
  cases n with
  | inst i => exact hasNode_modifyInstance i _ m
  | host k => exact hasNode_modifyHost k _ m
  | group k => exact hasNode_modifyGroup k _ m

/-! ### The children of a group -/

/-- A group that is not there has no children, and gets none from a rewriting that leaves the empty
    list as it is. -/
theorem children_modifyChildren {g : GroupKey} {f : List Node → List Node}
    (hf : f [] = [] ∨ s.HasGroup g) (k : GroupKey) :
    (s.modifyChildren g f).children k = if k = g then f (s.children k) else s.children k := by
  rw [modifyChildren, children, group?_modifyGroup, children]
  by_cases h : k = g
  · subst h
    rw [if_pos rfl, if_pos rfl]
    cases hk : s.group? k with
    | none =>
      rcases hf with hf | hg
      · simp [hf]
      · obtain ⟨group, hgroup⟩ := hasGroup_iff.mp hg
        rw [hk] at hgroup; simp at hgroup
    | some group => rfl
  · rw [if_neg (Ne.symm h), if_neg h]

@[simp] theorem groupOf?_modifyChildren (g : GroupKey) (f : List Node → List Node) (n : Node) :
    (s.modifyChildren g f).groupOf? n = s.groupOf? n :=
  groupOf?_modifyGroup (by intro _; rfl) n

@[simp] theorem hostOf?_modifyChildren (g : GroupKey) (f : List Node → List Node)
    (i : InstanceKey) : (s.modifyChildren g f).hostOf? i = s.hostOf? i := rfl

@[simp] theorem residents_modifyChildren (g : GroupKey) (f : List Node → List Node) (h : HostKey) :
    (s.modifyChildren g f).residents h = s.residents h := rfl

@[simp] theorem hasNode_modifyChildren (g : GroupKey) (f : List Node → List Node) (n : Node) :
    (s.modifyChildren g f).HasNode n ↔ s.HasNode n :=
  hasNode_modifyGroup g _ n

/-! ### The residents of a host -/

theorem residents_modifyResidents {h : HostKey} {f : List InstanceKey → List InstanceKey}
    (hf : f [] = [] ∨ s.HasHost h) (k : HostKey) :
    (s.modifyResidents h f).residents k = if k = h then f (s.residents k) else s.residents k := by
  rw [modifyResidents, residents, host?_modifyHost, residents]
  by_cases e : k = h
  · subst e
    rw [if_pos rfl, if_pos rfl]
    cases hk : s.host? k with
    | none =>
      rcases hf with hf | hh
      · simp [hf]
      · obtain ⟨host, hhost⟩ := hasHost_iff.mp hh
        rw [hk] at hhost; simp at hhost
    | some host => rfl
  · rw [if_neg (Ne.symm e), if_neg e]

@[simp] theorem groupOf?_modifyResidents (h : HostKey) (f : List InstanceKey → List InstanceKey)
    (n : Node) : (s.modifyResidents h f).groupOf? n = s.groupOf? n :=
  groupOf?_modifyHost (by intro _; rfl) n

@[simp] theorem hostOf?_modifyResidents (h : HostKey) (f : List InstanceKey → List InstanceKey)
    (i : InstanceKey) : (s.modifyResidents h f).hostOf? i = s.hostOf? i := rfl

@[simp] theorem children_modifyResidents (h : HostKey) (f : List InstanceKey → List InstanceKey)
    (g : GroupKey) : (s.modifyResidents h f).children g = s.children g := rfl

@[simp] theorem hasNode_modifyResidents (h : HostKey) (f : List InstanceKey → List InstanceKey)
    (n : Node) : (s.modifyResidents h f).HasNode n ↔ s.HasNode n :=
  hasNode_modifyHost h _ n

/-! ### The host written down with an instance -/

theorem hostOf?_enterHost {i : InstanceKey} (hi : s.HasInstance i) (h : HostKey) (j : InstanceKey) :
    (s.enterHost i h).hostOf? j = if j = i then some h else s.hostOf? j := by
  obtain ⟨inst, hinst⟩ := hasInstance_iff.mp hi
  rw [enterHost, hostOf?, instance?_modifyInstance]
  by_cases e : j = i
  · subst e; simp [modifyResidents, hinst]
  · rw [if_neg (Ne.symm e), if_neg e]; rfl

theorem residents_enterHost {h : HostKey} (hh : s.HasHost h) (i : InstanceKey) (k : HostKey) :
    (s.enterHost i h).residents k = if k = h then s.residents k ++ [i] else s.residents k := by
  have henter : (s.enterHost i h).residents k = (s.modifyResidents h (· ++ [i])).residents k := rfl
  rw [henter, residents_modifyResidents (.inr hh)]

@[simp] theorem groupOf?_enterHost (i : InstanceKey) (h : HostKey) (n : Node) :
    (s.enterHost i h).groupOf? n = s.groupOf? n := by
  refine (groupOf?_modifyInstance (by intro _; rfl) n).trans ?_
  rw [groupOf?_modifyResidents]

@[simp] theorem children_enterHost (i : InstanceKey) (h : HostKey) (g : GroupKey) :
    (s.enterHost i h).children g = s.children g := rfl

@[simp] theorem hasNode_enterHost (i : InstanceKey) (h : HostKey) (n : Node) :
    (s.enterHost i h).HasNode n ↔ s.HasNode n := by
  rw [enterHost, hasNode_modifyInstance, hasNode_modifyResidents]

end Schematic.Session
