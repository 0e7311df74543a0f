import Schematic.Proofs.Session.Placement

/-! What a change touches. A new element gets a record of its own. Notes, marks and placements rewrite
    the records of a few nodes and leave those of all others, the links and the chains as they are; and
    no record that they rewrite gets another ident. A placement touches what is put somewhere, where it
    is put, and where it was. -/

namespace Schematic

/-- All that is written down with a node. -/
inductive Record where
  | inst (i : Instance)
  | host (h : Host)
  | group (g : Group)

def Record.ident : Record → Ident
  | .inst i => i.ident
  | .host h => h.ident
  | .group g => g.ident

namespace Session

/-- What is written down with a node. -/
def record? (s : Session) : Node → Option Record
  | .inst i => (s.instance? i).map .inst
  | .host h => (s.host? h).map .host
  | .group g => (s.group? g).map .group

/-- `t` is `s` with other records for some of the nodes that are touched, under the same idents. -/
structure Edits (touched : Node → Prop) (s t : Session) : Prop where
  theme : t.theme = s.theme
  counter : t.counter = s.counter
  links : t.links = s.links
  chains : t.chains = s.chains
  identOf? : ∀ n, t.identOf? n = s.identOf? n
  record? : ∀ n, ¬ touched n → t.record? n = s.record? n

variable {s t u : Session} {p q : Node → Prop}

/-! ### What records say -/

theorem instance?_of_record {i : InstanceKey} (h : t.record? (.inst i) = s.record? (.inst i)) :
    t.instance? i = s.instance? i := Option.map_injective (fun _ _ => Record.inst.inj) h

theorem host?_of_record {k : HostKey} (h : t.record? (.host k) = s.record? (.host k)) :
    t.host? k = s.host? k := Option.map_injective (fun _ _ => Record.host.inj) h

theorem group?_of_record {g : GroupKey} (h : t.record? (.group g) = s.record? (.group g)) :
    t.group? g = s.group? g := Option.map_injective (fun _ _ => Record.group.inj) h

theorem identOf?_eq (n : Node) : s.identOf? n = (s.record? n).map Record.ident := by
  cases n with
  | inst i => rw [identOf?, record?, Option.map_map]; rfl
  | host h => rw [identOf?, record?, Option.map_map]; rfl
  | group g => rw [identOf?, record?, Option.map_map]; rfl

/-- A node that is there has an ident. -/
theorem hasNode_iff_identOf? {n : Node} : s.HasNode n ↔ (s.identOf? n).isSome := by
  cases n with
  | inst i => rw [HasNode, hasInstance_iff, identOf?]; cases s.instance? i <;> simp
  | host h => rw [HasNode, hasHost_iff, identOf?]; cases s.host? h <;> simp
  | group g => rw [HasNode, hasGroup_iff, identOf?]; cases s.group? g <;> simp

/-! ### New elements -/

theorem record?_newInstance (name : String) (n : Node) : (s.newInstance name).2.record? n =
    if n = .inst ⟨s.instances.size⟩ then
      some (.inst ⟨(s.takeIdent "instance").1, name, "", none, none, false⟩)
    else s.record? n := by
  cases n with
  | inst i =>
    obtain ⟨i⟩ := i
    simp only [record?, instance?, newInstance, takeIdent, Array.getElem?_push, Node.inst.injEq,
      InstanceKey.mk.injEq]
    split <;> rfl
  | host h => rfl
  | group g => rfl

theorem record?_newHost (n : Node) : s.newHost.2.record? n =
    if n = .host ⟨s.hosts.size⟩ then some (.host ⟨(s.takeIdent "host").1, [], none, false⟩)
    else s.record? n := by
  cases n with
  | inst i => rfl
  | host h =>
    obtain ⟨h⟩ := h
    simp only [record?, host?, newHost, takeIdent, Array.getElem?_push, Node.host.injEq,
      HostKey.mk.injEq]
    split <;> rfl
  | group g => rfl

theorem record?_newGroup (name : Option String) (n : Node) : (s.newGroup name).2.record? n =
    if n = .group ⟨s.groups.size⟩ then some (.group ⟨(s.takeIdent "group").1, name, [], none⟩)
    else s.record? n := by
  cases n with
  | inst i => rfl
  | host h => rfl
  | group g =>
    obtain ⟨g⟩ := g
    simp only [record?, group?, newGroup, takeIdent, Array.getElem?_push, Node.group.injEq,
      GroupKey.mk.injEq]
    split <;> rfl

namespace Edits

theorem refl (s : Session) : Edits p s s := ⟨rfl, rfl, rfl, rfl, fun _ => rfl, fun _ _ => rfl⟩

theorem trans (h : Edits p s t) (h' : Edits p t u) : Edits p s u where
  theme := h'.theme.trans h.theme
  counter := h'.counter.trans h.counter
  links := h'.links.trans h.links
  chains := h'.chains.trans h.chains
  identOf? n := (h'.identOf? n).trans (h.identOf? n)
  record? n hn := (h'.record? n hn).trans (h.record? n hn)

theorem mono (h : Edits p s t) (hpq : ∀ n, p n → q n) : Edits q s t :=
  { h with record? := fun n hn => h.record? n fun hp => hn (hpq n hp) }

theorem hasNode (h : Edits p s t) (n : Node) : t.HasNode n ↔ s.HasNode n := by
  rw [hasNode_iff_identOf?, h.identOf?, hasNode_iff_identOf?]

/-! ### One record -/

theorem modifyInstance (i : InstanceKey) {f : Instance → Instance} (hf : ∀ x, (f x).ident = x.ident) :
    Edits (· = .inst i) s (s.modifyInstance i f) := by
  refine ⟨rfl, rfl, rfl, rfl, fun n => ?_, fun n hn => ?_⟩
  · cases n with
    | inst j =>
      simp only [Session.identOf?, instance?_modifyInstance]
      split
      · cases s.instance? j <;> simp [hf]
      · rfl
    | host k => rfl
    | group k => rfl
  · cases n with
    | inst j =>
      rw [Session.record?, instance?_modifyInstance, if_neg fun he => hn (congrArg _ he.symm)]
      rfl
    | host k => rfl
    | group k => rfl

theorem modifyHost (h : HostKey) {f : Host → Host} (hf : ∀ x, (f x).ident = x.ident) :
    Edits (· = .host h) s (s.modifyHost h f) := by
  refine ⟨rfl, rfl, rfl, rfl, fun n => ?_, fun n hn => ?_⟩
  · cases n with
    | inst j => rfl
    | host k =>
      simp only [Session.identOf?, host?_modifyHost]
      split
      · cases s.host? k <;> simp [hf]
      · rfl
    | group k => rfl
  · cases n with
    | inst j => rfl
    | host k =>
      rw [Session.record?, host?_modifyHost, if_neg fun he => hn (congrArg _ he.symm)]
      rfl
    | group k => rfl

theorem modifyGroup (g : GroupKey) {f : Group → Group} (hf : ∀ x, (f x).ident = x.ident) :
    Edits (· = .group g) s (s.modifyGroup g f) := by
  refine ⟨rfl, rfl, rfl, rfl, fun n => ?_, fun n hn => ?_⟩
  · cases n with
    | inst j => rfl
    | host k => rfl
    | group k =>
      simp only [Session.identOf?, group?_modifyGroup]
      split
      · cases s.group? k <;> simp [hf]
      · rfl
  · cases n with
    | inst j => rfl
    | host k => rfl
    | group k =>
      rw [Session.record?, group?_modifyGroup, if_neg fun he => hn (congrArg _ he.symm)]
      rfl

theorem annotate (i : InstanceKey) (text : String) : Edits (· = .inst i) s (s.annotate i text) :=
  .modifyInstance i fun _ => rfl

theorem replicateInstance (i : InstanceKey) : Edits (· = .inst i) s (s.replicateInstance i) :=
  .modifyInstance i fun _ => rfl

theorem replicateHost (h : HostKey) : Edits (· = .host h) s (s.replicateHost h) :=
  .modifyHost h fun _ => rfl

theorem setGroup (n : Node) (g : Option GroupKey) : Edits (· = n) s (s.setGroup n g) := by
  cases n with
  | inst i => exact .modifyInstance i fun _ => rfl
  | host k => exact .modifyHost k fun _ => rfl
  | group k => exact .modifyGroup k fun _ => rfl

theorem modifyChildren (g : GroupKey) (f : List Node → List Node) :
    Edits (· = .group g) s (s.modifyChildren g f) := .modifyGroup g fun _ => rfl

theorem modifyResidents (h : HostKey) (f : List InstanceKey → List InstanceKey) :
    Edits (· = .host h) s (s.modifyResidents h f) := .modifyHost h fun _ => rfl

/-! ### Placements -/

/-- A node that leaves its group touches itself and the group. -/
theorem leaveGroup (n : Node) :
    Edits (fun m => m = n ∨ ∃ k, s.groupOf? n = some k ∧ m = .group k) s (s.leaveGroup n) := by
  rw [Session.leaveGroup]
  cases hg : s.groupOf? n with
  | none => exact .refl s
  | some g =>
    refine ((modifyChildren g _).mono ?_).trans ((setGroup n none).mono fun _ => .inl)
    rintro _ rfl
    exact .inr ⟨g, rfl, rfl⟩

/-- What a placement in a group touches: what stands in for the node, the group, and the group that it
    was in. -/
def PlacesIn (s : Session) (n : Node) (g : GroupKey) (m : Node) : Prop :=
  m = s.standIn n ∨ m = .group g ∨ ∃ k, s.groupOf? (s.standIn n) = some k ∧ m = .group k

theorem placeIn (n : Node) (g : GroupKey) : Edits (PlacesIn s n g) s (s.placeIn n g) := by
  simp only [Session.placeIn]
  split
  · exact .refl s
  split
  · exact .refl s
  · have hleave : Edits (PlacesIn s n g) s (s.leaveGroup (s.standIn n)) := by
      refine (leaveGroup _).mono fun m hm => ?_
      rcases hm with hm | hm
      · exact .inl hm
      · exact .inr (.inr hm)
    refine (hleave.trans ((modifyChildren g _).mono ?_)).trans ((setGroup _ _).mono fun _ => .inl)
    rintro _ rfl
    exact .inr (.inl rfl)

/-- What a placement on a host touches: the instance, the host, the host that it was on, and the groups
    that the two were in. -/
def PlacesOn (s : Session) (i : InstanceKey) (h : HostKey) (m : Node) : Prop :=
  m = .inst i ∨ m = .host h ∨ (∃ k, s.hostOf? i = some k ∧ m = .host k) ∨
    ∃ n k, (n = .inst i ∨ n = .host h) ∧ s.groupOf? n = some k ∧ m = .group k

theorem placeOn (i : InstanceKey) (h : HostKey) : Edits (PlacesOn s i h) s (s.placeOn i h) := by
  have hinst : ∀ m, m = .inst i → PlacesOn s i h m := fun _ => .inl
  have hhost : ∀ m, m = .host h → PlacesOn s i h m := fun _ hm => .inr (.inl hm)
  have hgroup : ∀ {n k}, n = .inst i ∨ n = .host h → s.groupOf? n = some k →
      PlacesOn s i h (.group k) := fun hn hk => .inr (.inr (.inr ⟨_, _, hn, hk, rfl⟩))
  have hleave : Edits (PlacesOn s i h) s (s.leaveHost i) := by
    rw [leaveHost]
    cases hk : s.hostOf? i with
    | none => exact .refl s
    | some k =>
      refine (modifyResidents k _).mono ?_
      rintro _ rfl
      exact .inr (.inr (.inl ⟨k, hk, rfl⟩))
  have hyield : Edits (PlacesOn s i h) (s.leaveHost i) ((s.leaveHost i).yieldPlace i h) := by
    rw [yieldPlace]
    cases hg : (s.leaveHost i).groupOf? (.inst i) with
    | none => exact .refl _
    | some g =>
      rw [groupOf?_leaveHost] at hg
      have hplace : ∀ {r : Session} (f : List Node → List Node),
          Edits (PlacesOn s i h) r (r.modifyChildren g f) := fun f =>
        (modifyChildren g f).mono (by rintro _ rfl; exact hgroup (.inl rfl) hg)
      have hfree := (setGroup (s := s.leaveHost i) (.inst i) none).mono hinst
      simp only [takePlace]
      split
      · exact hfree.trans (hplace _)
      · -- the host leaves the group that it was in before the instance was taken out of its own
        refine ((hfree.trans ((leaveGroup _).mono fun m hm => ?_)).trans (hplace _)).trans
          ((setGroup _ _).mono hhost)
        rcases hm with hm | ⟨k, hk, rfl⟩
        · exact hhost m hm
        · exact hgroup (.inr rfl) ((groupOf?_leaveHost i (.host h)).symm.trans hk)
  rw [Session.placeOn]
  split
  · exact .refl s
  · have hon : Edits (PlacesOn s i h) ((s.leaveHost i).yieldPlace i h)
        (((s.leaveHost i).yieldPlace i h).enterHost i h) :=
      ((modifyResidents h _).mono hhost).trans
        ((modifyInstance (f := fun inst => { inst with host := some h }) i fun _ => rfl).mono hinst)
    exact (hleave.trans hyield).trans hon

end Edits

end Session

end Schematic
