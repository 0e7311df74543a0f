import Schematic.Document.Declaration
import Schematic.Proofs.Document.Wellformed

/-! What the ids of a declared document stand for. A document that is valid has no id twice, and so the
    id of an entry stands for the element that was made of that entry, whatever else has been
    declared. -/

namespace Schematic

/-! ### Nodes by id -/

namespace Declared

variable {d : Declared} {id : String}

theorem group?_eq_some {k : GroupKey} : d.group? id = some k ↔ d.node? id = some (.group k) := by
  rw [group?]
  cases d.node? id with
  | none => simp
  | some n => cases n <;> simp

theorem host?_eq_some {k : HostKey} : d.host? id = some k ↔ d.node? id = some (.host k) := by
  rw [host?]
  cases d.node? id with
  | none => simp
  | some n => cases n <;> simp

theorem instance?_eq_some {k : InstanceKey} :
    d.instance? id = some k ↔ d.node? id = some (.inst k) := by
  rw [instance?]
  cases d.node? id with
  | none => simp
  | some n => cases n <;> simp

end Declared

/-! ### Declaring elements -/

namespace Draft

/-- What no entry changes, a list of entries does not change. -/
theorem foldl_keeps {α β : Type} {f : Draft → α → Draft} {v : Draft → β}
    (h : ∀ d a, v (f d a) = v d) : ∀ (as : List α) (d : Draft), v (as.foldl f d) = v d
  | [], _ => rfl
  | a :: as, d => (foldl_keeps h as (f d a)).trans (h d a)

theorem modify_push_size {α : Type} (xs : Array α) (x : α) (f : α → α) :
    (xs.push x).modify xs.size f = xs.push (f x) := by
  refine Array.ext_getElem? fun j => ?_
  rw [Array.getElem?_modify, Array.getElem?_push, Array.getElem?_push]
  by_cases h : j = xs.size
  · simp [h]
  · simp [h, Ne.symm h]

/-- An instance is added with all that its entry says about it. -/
theorem addInstance_eq (d : Draft) (i : InstanceEntry) : d.addInstance i =
    ⟨{ d.session with
        counter := (d.session.counter.take "instance").2
        instances := d.session.instances.push
          { ident := (d.session.counter.take "instance").1, name := i.name.getD i.id,
            notes := i.details.getD "", multiple := i.multiple } },
      d.declared.add i.id (.inst ⟨d.session.instances.size⟩)⟩ := by
  obtain ⟨id, name, details, multiple, within, on⟩ := i
  cases details <;> cases multiple <;>
    simp [addInstance, Session.newInstance, Session.takeIdent, Session.annotate,
      Session.replicateInstance, Session.modifyInstance, modify_push_size]

theorem size_addInstance (d : Draft) (i : InstanceEntry) :
    (d.addInstance i).session.instances.size = d.session.instances.size + 1 := by
  rw [addInstance_eq, Array.size_push]

/-- Entries of one kind. Each is for one more node of that kind, and gives its id to it. -/
structure Naming {α : Type} (add : Draft → α → Draft) (id : α → String) (size : Draft → Nat)
    (node : Nat → Node) : Prop where
  size_add : ∀ d a, size (add d a) = size d + 1
  node?_add : ∀ d a other, (add d a).declared.node? other =
    if other = id a then some (node (size d)) else d.declared.node? other

namespace Naming

variable {α : Type} {add : Draft → α → Draft} {id : α → String} {size : Draft → Nat}
  {node : Nat → Node}

/-- Entries leave other ids alone. -/
theorem node?_of_not_mem (h : Naming add id size node) : ∀ {as : List α} {d : Draft} {other : String},
    other ∉ as.map id → (as.foldl add d).declared.node? other = d.declared.node? other
  | [], _, _, _ => rfl
  | a :: as, d, other, hmem => by
    rw [List.map_cons, List.mem_cons, not_or] at hmem
    rw [List.foldl_cons, h.node?_of_not_mem hmem.2, h.node?_add, if_neg hmem.1]

/-- Under different ids, each entry gives its id to the next node. -/
theorem node?_of_getElem (h : Naming add id size node) : ∀ {as : List α} {d : Draft} {j : Nat} {a : α},
    (as.map id).Nodup → as[j]? = some a →
    (as.foldl add d).declared.node? (id a) = some (node (size d + j))
  | [], _, _, _, _, ha => by simp at ha
  | a :: as, d, 0, b, hnodup, ha => by
    rw [List.getElem?_cons_zero, Option.some.injEq] at ha
    subst ha
    rw [List.map_cons, List.nodup_cons] at hnodup
    rw [List.foldl_cons, h.node?_of_not_mem hnodup.1, h.node?_add, if_pos rfl]
    rfl
  | a :: as, d, j + 1, b, hnodup, ha => by
    rw [List.map_cons, List.nodup_cons] at hnodup
    rw [List.foldl_cons, h.node?_of_getElem hnodup.2 (by simpa using ha), h.size_add]
    simp only [Nat.add_assoc, Nat.add_comm 1 j]

end Naming

theorem node?_add (d : Declared) (id : String) (n : Node) (other : String) :
    (d.add id n).node? other = if other = id then some n else d.node? other := by
  rw [Declared.node?, Declared.add, List.lookup_cons]
  by_cases h : other = id
  · simp [h]
  · rw [beq_eq_false_iff_ne.mpr h, if_neg h, Declared.node?]

theorem naming_addGroup : Naming addGroup (·.id) (·.session.groups.size) fun n => .group ⟨n⟩ where
  size_add _ _ := Array.size_push _
  node?_add d g := node?_add d.declared g.id _

theorem naming_addHost : Naming addHost (·.id) (·.session.hosts.size) fun n => .host ⟨n⟩ where
  size_add d h := by
    simp only [addHost]
    split <;> simp [Session.newHost, Session.replicateHost, Session.modifyHost, Session.takeIdent]
  node?_add d h := node?_add d.declared h.id _

theorem naming_addInstance :
    Naming addInstance (·.id) (·.session.instances.size) fun n => .inst ⟨n⟩ where
  size_add := size_addInstance
  node?_add d i := by rw [addInstance_eq]; exact node?_add d.declared i.id _

/-- No id stands for an instance yet. -/
def NoInstances (d : Draft) : Prop := ∀ id i, d.declared.node? id ≠ some (.inst i)

theorem noInstances_add {d : Draft} (hd : d.NoInstances) {s : Session} {id : String} {n : Node}
    (hn : ∀ i, n ≠ .inst i) : NoInstances ⟨s, d.declared.add id n⟩ := by
  intro id' i h
  rw [node?_add] at h
  split at h
  · exact hn i (Option.some.inj h)
  · exact hd id' i h

end Draft

/-! ### The document -/

namespace Document

/-- Groups and hosts, which come before the instances. -/
def containers (doc : Document) (s : Session) : Draft :=
  doc.hosts.foldl Draft.addHost (doc.groups.foldl Draft.addGroup { session := s })

/-- All elements, before anything is put into anything. -/
def elements (doc : Document) (s : Session) : Draft :=
  doc.instances.foldl Draft.addInstance (doc.containers s)

/-- Putting elements into others. -/
def nest (doc : Document) (d : Draft) : Draft :=
  doc.instances.foldl Draft.lodge (doc.instances.foldl Draft.settleInstance
    (doc.hosts.foldl Draft.settleHost (doc.groups.foldl Draft.settleGroup d)))

theorem declare_eq (doc : Document) (s : Session) :
    doc.declare s = ((doc.systems.foldl Draft.addSystem (doc.nest (doc.elements s))).declared,
      (doc.systems.foldl Draft.addSystem (doc.nest (doc.elements s))).session) := rfl

theorem instances_containers (doc : Document) (s : Session) :
    (doc.containers s).session.instances = s.instances := by
  have hhost : ∀ d h, (Draft.addHost d h).session.instances = d.session.instances := by
    intro d h
    simp only [Draft.addHost]
    split <;> rfl
  have hgroup : ∀ d g, (Draft.addGroup d g).session.instances = d.session.instances :=
    fun _ _ => rfl
  rw [containers, Draft.foldl_keeps (v := fun d => d.session.instances) hhost,
    Draft.foldl_keeps (v := fun d => d.session.instances) hgroup]

theorem noInstances_containers (doc : Document) (s : Session) : (doc.containers s).NoInstances := by
  have hstart : Draft.NoInstances { session := s } := by
    intro id i h
    simp [Declared.node?] at h
  have hgroups : (doc.groups.foldl Draft.addGroup { session := s }).NoInstances :=
    List.foldlRecOn doc.groups Draft.addGroup hstart fun _ hd _ _ =>
      Draft.noInstances_add hd (by simp)
  exact List.foldlRecOn doc.hosts Draft.addHost hgroups fun _ hd _ _ =>
    Draft.noInstances_add hd (by simp)

/-- Once the elements are there, ids keep what they stand for. -/
theorem nodes_declare (doc : Document) (s : Session) :
    (doc.declare s).1.nodes = (doc.elements s).declared.nodes := by
  have hsettle : ∀ d node within, (Draft.settle d node within).declared.nodes = d.declared.nodes := by
    intro d node within
    unfold Draft.settle
    split <;> rfl
  have hlodge : ∀ d i, (Draft.lodge d i).declared.nodes = d.declared.nodes := by
    intro d i
    unfold Draft.lodge
    split <;> rfl
  have hsystem : ∀ d e, (Draft.addSystem d e).declared.nodes = d.declared.nodes := fun _ _ => rfl
  have hgroup : ∀ d g, (Draft.settleGroup d g).declared.nodes = d.declared.nodes :=
    fun _ _ => hsettle _ _ _
  have hhost : ∀ d h, (Draft.settleHost d h).declared.nodes = d.declared.nodes :=
    fun _ _ => hsettle _ _ _
  have hinst : ∀ d i, (Draft.settleInstance d i).declared.nodes = d.declared.nodes :=
    fun _ _ => hsettle _ _ _
  rw [declare_eq, Draft.foldl_keeps (v := fun d => d.declared.nodes) hsystem, nest,
    Draft.foldl_keeps (v := fun d => d.declared.nodes) hlodge,
    Draft.foldl_keeps (v := fun d => d.declared.nodes) hinst,
    Draft.foldl_keeps (v := fun d => d.declared.nodes) hhost,
    Draft.foldl_keeps (v := fun d => d.declared.nodes) hgroup]

theorem node?_declare (doc : Document) (s : Session) (id : String) :
    (doc.declare s).1.node? id = (doc.elements s).declared.node? id := by
  rw [Declared.node?, Declared.node?, nodes_declare]

/-- Only ids of the document stand for something. -/
theorem has_of_node? {doc : Document} {s : Session} {id : String} {n : Node}
    (h : (doc.declare s).1.node? id = some n) : ∃ kind, doc.Has kind id := by
  by_contra hno
  have hgroup : id ∉ doc.groups.map (·.id) := fun hmem =>
    hno ⟨_, has_group_iff.mpr (List.mem_map.mp hmem)⟩
  have hhost : id ∉ doc.hosts.map (·.id) := fun hmem =>
    hno ⟨_, has_host_iff.mpr (List.mem_map.mp hmem)⟩
  have hinst : id ∉ doc.instances.map (·.id) := fun hmem =>
    hno ⟨_, has_inst_iff.mpr (List.mem_map.mp hmem)⟩
  rw [node?_declare, elements, Draft.naming_addInstance.node?_of_not_mem hinst, containers,
    Draft.naming_addHost.node?_of_not_mem hhost, Draft.naming_addGroup.node?_of_not_mem hgroup] at h
  simp [Declared.node?] at h

/-- With different ids, the id of a group entry stands for the group that was made of it. -/
theorem group?_of_getElem {doc : Document} (h : (doc.ids.map (·.1)).Nodup) (s : Session) {j : Nat}
    {g : GroupEntry} (hj : doc.groups[j]? = some g) :
    (doc.declare s).1.group? g.id = some ⟨s.groups.size + j⟩ := by
  obtain ⟨hgroups, -, -, hhosts, hinstances, -⟩ := ids_nodup_iff.mp h
  have hg := List.mem_of_getElem? hj
  have hhost : g.id ∉ doc.hosts.map (·.id) := by
    rintro hmem
    obtain ⟨k, hk, hid⟩ := List.mem_map.mp hmem
    exact hhosts g hg k hk hid.symm
  have hinst : g.id ∉ doc.instances.map (·.id) := by
    rintro hmem
    obtain ⟨i, hi, hid⟩ := List.mem_map.mp hmem
    exact hinstances g hg i hi hid.symm
  rw [Declared.group?, node?_declare, elements, Draft.naming_addInstance.node?_of_not_mem hinst,
    containers, Draft.naming_addHost.node?_of_not_mem hhost,
    Draft.naming_addGroup.node?_of_getElem hgroups hj]

/-- With different ids, the id of a host entry stands for the host that was made of it. -/
theorem host?_of_getElem {doc : Document} (h : (doc.ids.map (·.1)).Nodup) (s : Session) {j : Nat}
    {k : HostEntry} (hj : doc.hosts[j]? = some k) :
    (doc.declare s).1.host? k.id = some ⟨s.hosts.size + j⟩ := by
  obtain ⟨-, hhosts, -, -, -, hinstances⟩ := ids_nodup_iff.mp h
  have hinst : k.id ∉ doc.instances.map (·.id) := by
    rintro hmem
    obtain ⟨i, hi, hid⟩ := List.mem_map.mp hmem
    exact hinstances k (List.mem_of_getElem? hj) i hi hid.symm
  have hsize : (doc.groups.foldl Draft.addGroup { session := s }).session.hosts.size =
      s.hosts.size :=
    Draft.foldl_keeps (f := Draft.addGroup) (v := fun d => d.session.hosts.size) (fun _ _ => rfl) _ _
  rw [Declared.host?, node?_declare, elements, Draft.naming_addInstance.node?_of_not_mem hinst,
    containers, Draft.naming_addHost.node?_of_getElem hhosts hj, hsize]

/-- Where instances have different ids, the id of an instance entry stands for the instance that was
    made of it. -/
theorem instance?_of_getElem {doc : Document} (hnodup : (doc.instances.map (·.id)).Nodup)
    (s : Session) {j : Nat} {i : InstanceEntry} (hj : doc.instances[j]? = some i) :
    (doc.declare s).1.instance? i.id = some ⟨s.instances.size + j⟩ := by
  rw [Declared.instance?, node?_declare, elements,
    Draft.naming_addInstance.node?_of_getElem hnodup hj, instances_containers]

/-- With different ids, an id stands for an instance just when the entry at the place of that instance
    has it. -/
theorem instance?_declare {doc : Document} (hnodup : (doc.instances.map (·.id)).Nodup)
    (theme : Theme) {id : String} {k : InstanceKey} :
    (doc.declare (.fresh theme)).1.instance? id = some k ↔
      ∃ i, doc.instances[k.index]? = some i ∧ i.id = id := by
  have hsize : (Session.fresh theme).instances.size = 0 := rfl
  constructor
  · intro h
    by_cases hmem : id ∈ doc.instances.map (·.id)
    · obtain ⟨i, hi, rfl⟩ := List.mem_map.mp hmem
      obtain ⟨j, hj⟩ := List.getElem?_of_mem hi
      rw [instance?_of_getElem hnodup _ hj, hsize, Nat.zero_add] at h
      cases h
      exact ⟨i, hj, rfl⟩
    · rw [Declared.instance?, node?_declare, elements,
        Draft.naming_addInstance.node?_of_not_mem hmem] at h
      split at h
      · next i hi => exact absurd hi (noInstances_containers doc _ id i)
      · cases h
  · rintro ⟨i, hi, rfl⟩
    rw [instance?_of_getElem hnodup _ hi, hsize, Nat.zero_add]

/-- The id of the entry at the place of a node. -/
def idAt? (doc : Document) : Node → Option String
  | .inst i => doc.instances[i.index]?.map (·.id)
  | .host h => doc.hosts[h.index]?.map (·.id)
  | .group g => doc.groups[g.index]?.map (·.id)

theorem group_of_has {doc : Document} {id : String} (h : doc.Has .group id) :
    ∃ g, doc.idAt? (.group g) = some id := by
  obtain ⟨g, hg, rfl⟩ := has_group_iff.mp h
  obtain ⟨j, hj⟩ := List.getElem?_of_mem hg
  exact ⟨⟨j⟩, by rw [idAt?, hj]; rfl⟩

theorem host_of_has {doc : Document} {id : String} (h : doc.Has .host id) :
    ∃ k, doc.idAt? (.host k) = some id := by
  obtain ⟨k, hk, rfl⟩ := has_host_iff.mp h
  obtain ⟨j, hj⟩ := List.getElem?_of_mem hk
  exact ⟨⟨j⟩, by rw [idAt?, hj]; rfl⟩

theorem instance_of_has {doc : Document} {id : String} (h : doc.Has .inst id) :
    ∃ i, doc.idAt? (.inst i) = some id := by
  obtain ⟨i, hi, rfl⟩ := has_inst_iff.mp h
  obtain ⟨j, hj⟩ := List.getElem?_of_mem hi
  exact ⟨⟨j⟩, by rw [idAt?, hj]; rfl⟩

/-- Every id of the document is that of some place. -/
theorem idAt?_of_has {doc : Document} {kind : EntryKind} {id : String} (h : doc.Has kind id) :
    ∃ n, doc.idAt? n = some id := by
  cases kind with
  | group => exact (group_of_has h).imp' .group fun _ hg => hg
  | host => exact (host_of_has h).imp' .host fun _ hk => hk
  | inst => exact (instance_of_has h).imp' .inst fun _ hi => hi

/-- With different ids, an id stands for a node just when the entry at the place of the node has it. -/
theorem node?_declare_iff {doc : Document} (h : (doc.ids.map (·.1)).Nodup) (theme : Theme)
    {id : String} {n : Node} :
    (doc.declare (.fresh theme)).1.node? id = some n ↔ doc.idAt? n = some id := by
  have hat : ∀ {n}, doc.idAt? n = some id → (doc.declare (.fresh theme)).1.node? id = some n := by
    intro n hn
    cases n with
    | inst i =>
      obtain ⟨e, he, rfl⟩ := Option.map_eq_some_iff.mp hn
      have := instance?_of_getElem (ids_nodup_iff.mp h).2.2.1 (.fresh theme) he
      rwa [Declared.instance?_eq_some, show (Session.fresh theme).instances.size = 0 from rfl,
        Nat.zero_add] at this
    | host k =>
      obtain ⟨e, he, rfl⟩ := Option.map_eq_some_iff.mp hn
      have := host?_of_getElem h (.fresh theme) he
      rwa [Declared.host?_eq_some, show (Session.fresh theme).hosts.size = 0 from rfl,
        Nat.zero_add] at this
    | group g =>
      obtain ⟨e, he, rfl⟩ := Option.map_eq_some_iff.mp hn
      have := group?_of_getElem h (.fresh theme) he
      rwa [Declared.group?_eq_some, show (Session.fresh theme).groups.size = 0 from rfl,
        Nat.zero_add] at this
  refine ⟨fun hid => ?_, hat⟩
  obtain ⟨kind, hhas⟩ := has_of_node? hid
  obtain ⟨m, hm⟩ := idAt?_of_has hhas
  rw [hat hm] at hid
  cases hid
  exact hm

/-- Targets name the instance of an entry as often as they list its id. -/
theorem count_instances {doc : Document} (hnodup : (doc.instances.map (·.id)).Nodup) (theme : Theme)
    {j : Nat} {i : InstanceEntry} (hj : doc.instances[j]? = some i) (targets : List String) :
    ((doc.declare (.fresh theme)).1.instances targets).count ⟨j⟩ = targets.count i.id := by
  rw [Declared.instances, List.count_filterMap, List.count]
  refine List.countP_congr fun id _ => ?_
  rw [beq_iff_eq, beq_iff_eq, instance?_declare hnodup, hj]
  simp [eq_comm]

end Document

end Schematic
