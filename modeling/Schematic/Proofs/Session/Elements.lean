import Mathlib.Logic.Relation
import Schematic.Proofs.Session.Nesting

/-! Elements stay. A placement keeps the elements and the links of a session as they are, and no step
    takes an element away, so a key that names something goes on naming it. -/

namespace Schematic.Session

/-- `t` has just the nodes of `s`, and its links and chains. -/
structure SameElements (s t : Session) : Prop where
  hasNode : ∀ n, t.HasNode n ↔ s.HasNode n
  links : t.links = s.links
  chains : t.chains = s.chains

variable {s t u : Session}

namespace SameElements

theorem refl (s : Session) : SameElements s s := ⟨fun _ => Iff.rfl, rfl, rfl⟩

theorem trans (h : SameElements s t) (h' : SameElements t u) : SameElements s u :=
  ⟨fun n => (h'.hasNode n).trans (h.hasNode n), h'.links.trans h.links, h'.chains.trans h.chains⟩

end SameElements

theorem sameElements_modifyInstance (i : InstanceKey) (f : Instance → Instance) :
    SameElements s (s.modifyInstance i f) := ⟨hasNode_modifyInstance i f, rfl, rfl⟩

theorem sameElements_modifyHost (h : HostKey) (f : Host → Host) :
    SameElements s (s.modifyHost h f) := ⟨hasNode_modifyHost h f, rfl, rfl⟩

theorem sameElements_modifyGroup (g : GroupKey) (f : Group → Group) :
    SameElements s (s.modifyGroup g f) := ⟨hasNode_modifyGroup g f, rfl, rfl⟩

theorem sameElements_setGroup (n : Node) (g : Option GroupKey) :
    SameElements s (s.setGroup n g) := by
  cases n with
  | inst i => exact sameElements_modifyInstance i _
  | host h => exact sameElements_modifyHost h _
  | group k => exact sameElements_modifyGroup k _

theorem sameElements_modifyChildren (g : GroupKey) (f : List Node → List Node) :
    SameElements s (s.modifyChildren g f) := sameElements_modifyGroup g _

theorem sameElements_leaveGroup (n : Node) : SameElements s (s.leaveGroup n) := by
  rw [leaveGroup]
  cases s.groupOf? n with
  | none => exact .refl s
  | some g => exact (sameElements_modifyChildren g _).trans (sameElements_setGroup n none)

theorem sameElements_placeIn (n : Node) (g : GroupKey) : SameElements s (s.placeIn n g) := by
  simp only [placeIn]
  split
  · exact .refl s
  split
  · exact .refl s
  · exact ((sameElements_leaveGroup _).trans (sameElements_modifyChildren g _)).trans
      (sameElements_setGroup _ _)

theorem sameElements_placeOn (i : InstanceKey) (h : HostKey) : SameElements s (s.placeOn i h) := by
  have hleave : SameElements s (s.leaveHost i) := by
    rw [leaveHost]
    cases s.hostOf? i with
    | none => exact .refl s
    | some k => exact sameElements_modifyHost k _
  have hyield : ∀ r : Session, SameElements r (r.yieldPlace i h) := by
    intro r
    rw [yieldPlace]
    cases r.groupOf? (.inst i) with
    | none => exact .refl r
    | some g =>
      simp only [takePlace]
      split
      · exact (sameElements_setGroup _ _).trans (sameElements_modifyChildren g _)
      · exact (((sameElements_setGroup _ _).trans (sameElements_leaveGroup _)).trans
          (sameElements_modifyChildren g _)).trans (sameElements_setGroup _ _)
  rw [placeOn]
  split
  · exact .refl s
  · exact (hleave.trans (hyield _)).trans
      ((sameElements_modifyHost h _).trans (sameElements_modifyInstance i _))

/-! ### Growing -/

/-- Whatever is in `s` is in `t`. -/
structure Grows (s t : Session) : Prop where
  hasNode : ∀ {n}, s.HasNode n → t.HasNode n
  hasLink : ∀ {l}, s.HasLink l → t.HasLink l

namespace Grows

theorem refl (s : Session) : Grows s s := ⟨id, id⟩

theorem trans (h : Grows s t) (h' : Grows t u) : Grows s u :=
  ⟨fun hn => h'.hasNode (h.hasNode hn), fun hl => h'.hasLink (h.hasLink hl)⟩

theorem hasInstance (h : Grows s t) {i : InstanceKey} (hi : s.HasInstance i) : t.HasInstance i :=
  h.hasNode (show s.HasNode (.inst i) from hi)

theorem hasHost (h : Grows s t) {k : HostKey} (hk : s.HasHost k) : t.HasHost k :=
  h.hasNode (show s.HasNode (.host k) from hk)

theorem hasGroup (h : Grows s t) {g : GroupKey} (hg : s.HasGroup g) : t.HasGroup g :=
  h.hasNode (show s.HasNode (.group g) from hg)

end Grows

theorem SameElements.grows (h : SameElements s t) : Grows s t where
  hasNode hn := (h.hasNode _).mpr hn
  hasLink hl := by rw [HasLink, h.links]; exact hl

/-- Adding elements at the end of each kind takes none away. -/
theorem grows_of_sizes (hi : s.instances.size ≤ t.instances.size)
    (hh : s.hosts.size ≤ t.hosts.size) (hg : s.groups.size ≤ t.groups.size)
    (hl : s.links.size ≤ t.links.size) : Grows s t where
  hasNode {n} hn := by
    cases n with
    | inst i => exact Nat.lt_of_lt_of_le hn hi
    | host h => exact Nat.lt_of_lt_of_le hn hh
    | group g => exact Nat.lt_of_lt_of_le hn hg
  hasLink h := Nat.lt_of_lt_of_le h hl

theorem grows_newInstance (name : String) : Grows s (s.newInstance name).2 :=
  grows_of_sizes (by simp [newInstance, takeIdent]) (Nat.le_refl _) (Nat.le_refl _) (Nat.le_refl _)

theorem grows_newHost : Grows s s.newHost.2 :=
  grows_of_sizes (Nat.le_refl _) (by simp [newHost, takeIdent]) (Nat.le_refl _) (Nat.le_refl _)

theorem grows_newGroup (name : Option String) : Grows s (s.newGroup name).2 :=
  grows_of_sizes (Nat.le_refl _) (Nat.le_refl _) (by simp [newGroup, takeIdent]) (Nat.le_refl _)

theorem grows_newLink (source target : InstanceKey) (chain : Option ChainKey) :
    Grows s (s.newLink source target chain).2 := by
  cases chain <;>
    exact grows_of_sizes (Nat.le_refl _) (Nat.le_refl _) (Nat.le_refl _)
      (by simp [newLink, takeIdent])

theorem grows_extend (l : LinkKey) (next : InstanceKey) : Grows s (s.extend l next).2 := by
  rw [extend]
  cases s.link? l with
  | none => exact .refl s
  | some link => exact grows_newLink _ _ _

theorem grows_modify (l : LinkKey) (m : Modifier) : Grows s (s.modify l m) := by
  rw [modify]
  cases s.link? l with
  | none => exact .refl s
  | some link =>
    exact grows_of_sizes (Nat.le_refl _) (Nat.le_refl _) (Nat.le_refl _) (by simp [modifyLink])

/-- No step takes an element away. -/
theorem grows_run (t : Step) : Grows s (t.run s) := by
  cases t with
  | newInstance name => exact grows_newInstance name
  | newHost => exact grows_newHost
  | newGroup name => exact grows_newGroup name
  | newSystem name => exact ⟨id, id⟩
  | setTheme theme => exact ⟨id, id⟩
  | annotate i text => exact (sameElements_modifyInstance i _).grows
  | replicateInstance i => exact (sameElements_modifyInstance i _).grows
  | replicateHost h => exact (sameElements_modifyHost h _).grows
  | placeOn i h => exact (sameElements_placeOn i h).grows
  | placeIn n g => exact (sameElements_placeIn n g).grows
  | link source target => exact grows_newLink source target none
  | extend l next => exact grows_extend l next
  | modify l m => exact grows_modify l m

end Schematic.Session
