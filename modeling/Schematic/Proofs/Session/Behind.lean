import Schematic.Proofs.Session.Notes

/-! One session behind another. The elements of the second come after those of the first, and so all of
    its keys are moved on by as many as the first has of each kind, and its numbers to where the first
    has come to. Whatever is done with moved keys behind a session is what is done without them and
    without the session: nothing that is done looks at an element that was there before. -/

namespace Schematic

/-- How far the keys of each kind are moved on, and how far the numbers of idents. -/
structure Offset where
  instances : Nat
  hosts : Nat
  groups : Nat
  links : Nat
  chains : Nat
  number : UInt64

namespace Offset

variable (o : Offset)

def ident (a : Ident) : Ident := { a with number := a.number + o.number }

def instanceKey (i : InstanceKey) : InstanceKey := ⟨o.instances + i.index⟩

def hostKey (h : HostKey) : HostKey := ⟨o.hosts + h.index⟩

def groupKey (g : GroupKey) : GroupKey := ⟨o.groups + g.index⟩

def linkKey (l : LinkKey) : LinkKey := ⟨o.links + l.index⟩

def chainKey (c : ChainKey) : ChainKey := ⟨o.chains + c.index⟩

def node : Node → Node
  | .inst i => .inst (o.instanceKey i)
  | .host h => .host (o.hostKey h)
  | .group g => .group (o.groupKey g)

def inst (i : Instance) : Instance :=
  { i with ident := o.ident i.ident, host := i.host.map o.hostKey, group := i.group.map o.groupKey }

def host (h : Host) : Host :=
  { h with
    ident := o.ident h.ident
    instances := h.instances.map o.instanceKey
    group := h.group.map o.groupKey }

def group (g : Group) : Group :=
  { g with
    ident := o.ident g.ident
    children := g.children.map o.node
    group := g.group.map o.groupKey }

def link (l : Link) : Link :=
  { l with
    ident := o.ident l.ident
    source := o.instanceKey l.source
    target := o.instanceKey l.target
    chain := o.chainKey l.chain }

/-- As long as the counter does not wrap around, numbers grow by as much as they are moved on. -/
theorem toNat_ident (a : Ident) (h : a.number.toNat + o.number.toNat < UInt64.size) :
    (o.ident a).number.toNat = a.number.toNat + o.number.toNat := by
  rw [ident, UInt64.toNat_add, Nat.mod_eq_of_lt h]

/-! ### Different keys stay different -/

@[simp] theorem instanceKey_inj {i j : InstanceKey} : o.instanceKey i = o.instanceKey j ↔ i = j := by
  cases i; cases j; simp [instanceKey]

@[simp] theorem hostKey_inj {h k : HostKey} : o.hostKey h = o.hostKey k ↔ h = k := by
  cases h; cases k; simp [hostKey]

@[simp] theorem groupKey_inj {g k : GroupKey} : o.groupKey g = o.groupKey k ↔ g = k := by
  cases g; cases k; simp [groupKey]

@[simp] theorem node_inj {m n : Node} : o.node m = o.node n ↔ m = n := by
  cases m <;> cases n <;> simp [node]

theorem filter_instanceKey (i : InstanceKey) (is : List InstanceKey) :
    (is.map o.instanceKey).filter (· ≠ o.instanceKey i) =
      (is.filter (· ≠ i)).map o.instanceKey := by
  simp [List.filter_map, Function.comp_def]

theorem filter_node (n : Node) (ns : List Node) :
    (ns.map o.node).filter (· ≠ o.node n) = (ns.filter (· ≠ n)).map o.node := by
  simp [List.filter_map, Function.comp_def]

theorem swapOrAppend_node (old new : Node) : ∀ ns : List Node,
    Session.swapOrAppend (o.node old) (o.node new) (ns.map o.node) =
      (Session.swapOrAppend old new ns).map o.node
  | [] => rfl
  | n :: ns => by
    simp only [List.map_cons, Session.swapOrAppend, node_inj]
    split
    · rfl
    · rw [swapOrAppend_node old new ns, List.map_cons]

end Offset

namespace Session

/-- How far a session behind this one is moved on; its own numbers begin at 100. -/
def offset (s : Session) : Offset where
  instances := s.instances.size
  hosts := s.hosts.size
  groups := s.groups.size
  links := s.links.size
  chains := s.chains.size
  number := s.counter.next - 100

/-- The session with another one behind it. -/
def followedBy (s e : Session) : Session where
  theme := s.theme
  counter := { s.counter with next := e.counter.next + s.offset.number }
  instances := s.instances ++ e.instances.map s.offset.inst
  hosts := s.hosts ++ e.hosts.map s.offset.host
  groups := s.groups ++ e.groups.map s.offset.group
  links := s.links ++ e.links.map s.offset.link
  chains := s.chains ++ e.chains.map (·.map s.offset.linkKey)

variable {s e : Session}

theorem followedBy_fresh (s : Session) (theme : Theme) : s.followedBy (.fresh theme) = s := by
  have hnext : (100 : UInt64) + (s.counter.next - 100) = s.counter.next := by
    rw [UInt64.add_comm, UInt64.sub_add_cancel]
  simp [followedBy, fresh, offset, hnext]

/-! ### Entries of what comes behind -/

theorem getElem?_append_map {α β : Type} (xs : Array β) (ys : Array α) (f : α → β) (j : Nat) :
    (xs ++ ys.map f)[xs.size + j]? = ys[j]?.map f := by
  rw [Array.getElem?_append_right (Nat.le_add_right ..), Nat.add_sub_cancel_left, Array.getElem?_map]

theorem modify_append_map {α β : Type} (xs : Array β) (ys : Array α) {f : α → β} {g : β → β}
    {h : α → α} (hg : ∀ y, g (f y) = f (h y)) (j : Nat) :
    (xs ++ ys.map f).modify (xs.size + j) g = xs ++ (ys.modify j h).map f := by
  refine Array.ext_getElem? fun k => ?_
  rw [Array.getElem?_modify]
  rcases Nat.lt_or_ge k xs.size with hk | hk
  · rw [if_neg (by omega), Array.getElem?_append_left hk, Array.getElem?_append_left hk]
  · obtain ⟨k, rfl⟩ := Nat.exists_eq_add_of_le hk
    rw [getElem?_append_map, getElem?_append_map, Array.getElem?_modify]
    by_cases hj : j = k
    · subst hj
      cases ys[j]? <;> simp [hg]
    · simp [hj]

theorem instance?_followedBy (i : InstanceKey) : (s.followedBy e).instance? (s.offset.instanceKey i) =
    (e.instance? i).map s.offset.inst := getElem?_append_map ..

theorem host?_followedBy (h : HostKey) : (s.followedBy e).host? (s.offset.hostKey h) =
    (e.host? h).map s.offset.host := getElem?_append_map ..

theorem group?_followedBy (g : GroupKey) : (s.followedBy e).group? (s.offset.groupKey g) =
    (e.group? g).map s.offset.group := getElem?_append_map ..

theorem link?_followedBy (l : LinkKey) : (s.followedBy e).link? (s.offset.linkKey l) =
    (e.link? l).map s.offset.link := getElem?_append_map ..

theorem modifyInstance_followedBy {f g : Instance → Instance}
    (h : ∀ inst, f (s.offset.inst inst) = s.offset.inst (g inst)) (i : InstanceKey) :
    (s.followedBy e).modifyInstance (s.offset.instanceKey i) f =
      s.followedBy (e.modifyInstance i g) :=
  congrArg (fun instances => { s.followedBy e with instances }) (modify_append_map _ _ h _)

theorem modifyHost_followedBy {f g : Host → Host}
    (h : ∀ host, f (s.offset.host host) = s.offset.host (g host)) (k : HostKey) :
    (s.followedBy e).modifyHost (s.offset.hostKey k) f = s.followedBy (e.modifyHost k g) :=
  congrArg (fun hosts => { s.followedBy e with hosts }) (modify_append_map _ _ h _)

theorem modifyGroup_followedBy {f g : Group → Group}
    (h : ∀ group, f (s.offset.group group) = s.offset.group (g group)) (k : GroupKey) :
    (s.followedBy e).modifyGroup (s.offset.groupKey k) f = s.followedBy (e.modifyGroup k g) :=
  congrArg (fun groups => { s.followedBy e with groups }) (modify_append_map _ _ h _)

theorem modifyLink_followedBy {f g : Link → Link}
    (h : ∀ link, f (s.offset.link link) = s.offset.link (g link)) (l : LinkKey) :
    (s.followedBy e).modifyLink (s.offset.linkKey l) f = s.followedBy (e.modifyLink l g) :=
  congrArg (fun links => { s.followedBy e with links }) (modify_append_map _ _ h _)

/-! ### Looking at what comes behind -/

theorem hostOf?_followedBy (i : InstanceKey) : (s.followedBy e).hostOf? (s.offset.instanceKey i) =
    (e.hostOf? i).map s.offset.hostKey := by
  rw [hostOf?, hostOf?, instance?_followedBy]
  cases e.instance? i <;> rfl

theorem groupOf?_followedBy (n : Node) : (s.followedBy e).groupOf? (s.offset.node n) =
    (e.groupOf? n).map s.offset.groupKey := by
  cases n with
  | inst i =>
    simp only [Offset.node, groupOf?, instance?_followedBy]
    cases e.instance? i <;> rfl
  | host h =>
    simp only [Offset.node, groupOf?, host?_followedBy]
    cases e.host? h <;> rfl
  | group g =>
    simp only [Offset.node, groupOf?, group?_followedBy]
    cases e.group? g <;> rfl

theorem groupOf?_followedBy_iff (n : Node) (g : GroupKey) :
    (s.followedBy e).groupOf? (s.offset.node n) = some (s.offset.groupKey g) ↔
      e.groupOf? n = some g := by
  rw [groupOf?_followedBy]
  cases e.groupOf? n <;> simp

theorem isMany_followedBy (i : InstanceKey) :
    (s.followedBy e).isMany (s.offset.instanceKey i) = e.isMany i := by
  rw [isMany, isMany, instance?_followedBy]
  cases e.instance? i with
  | none => rfl
  | some inst =>
    cases hhost : inst.host with
    | none => simp [Offset.inst, hhost]
    | some h =>
      simp only [Option.map_some, Offset.inst, hhost, Option.bind_some, host?_followedBy]
      cases e.host? h <;> rfl

theorem standIn_followedBy (n : Node) :
    (s.followedBy e).standIn (s.offset.node n) = s.offset.node (e.standIn n) := by
  cases n with
  | inst i =>
    simp only [Offset.node, standIn, hostOf?_followedBy]
    cases e.hostOf? i <;> rfl
  | host h => rfl
  | group g => rfl

theorem outer?_followedBy (n : Node) :
    (s.followedBy e).outer? (s.offset.node n) = (e.outer? n).map s.offset.node := by
  have hgroup : ((s.followedBy e).groupOf? (s.offset.node n)).map Node.group =
      ((e.groupOf? n).map Node.group).map s.offset.node := by
    rw [groupOf?_followedBy]
    cases e.groupOf? n <;> rfl
  cases n with
  | inst i =>
    simp only [outer?, Offset.node, hostOf?_followedBy]
    cases e.hostOf? i with
    | none => exact hgroup
    | some h => rfl
  | host h => exact hgroup
  | group g => exact hgroup

theorem climb_followedBy : ∀ {path : List Node} {n : Node}, Climb e.outer? n path →
    Climb (s.followedBy e).outer? (s.offset.node n) (path.map s.offset.node)
  | [], n, h => by
    have hn : e.outer? n = none := h
    rw [List.map_nil, Climb, outer?_followedBy, hn, Option.map_none]
  | m :: path, n, h => by
    rw [List.map_cons, Climb, outer?_followedBy, h.1, Option.map_some]
    exact ⟨rfl, climb_followedBy h.2⟩

/-- There are more groups in the longer session, so what was enough steps is so still. -/
theorem ancestors_followedBy (hc : e.Coherent) (hg : e.Grounded) (n : Node) :
    (s.followedBy e).ancestors (s.offset.node n) = (e.ancestors n).map s.offset.node := by
  have hclimb := climb_ancestors hc hg n
  refine ancestorsUpTo_eq (climb_followedBy hclimb) ?_
  have hlen := climb_length_le hc hclimb
  have hsize : (s.followedBy e).groups.size = s.groups.size + e.groups.size := by simp [followedBy]
  rw [List.length_map, nestingBound, hsize]
  rw [nestingBound] at hlen
  omega

theorem encloses_followedBy (hc : e.Coherent) (hg : e.Grounded) (n : Node) (g : GroupKey) :
    (s.followedBy e).encloses (s.offset.node n) (s.offset.groupKey g) = e.encloses n g := by
  cases n with
  | inst i => rfl
  | host h => rfl
  | group k =>
    have hancestors := ancestors_followedBy (s := s) hc hg (.group g)
    have hcontains : ((e.ancestors (.group g)).map s.offset.node).contains
        (s.offset.node (.group k)) = (e.ancestors (.group g)).contains (.group k) := by
      rw [Bool.eq_iff_iff, List.contains_iff_mem, List.contains_iff_mem, List.mem_map]
      simp
    simp only [Offset.node] at hancestors hcontains ⊢
    simp only [encloses, hancestors, hcontains, Node.group.injEq, Offset.groupKey_inj]

/-! ### Moving what comes behind -/

theorem setGroup_followedBy (n : Node) (g : Option GroupKey) :
    (s.followedBy e).setGroup (s.offset.node n) (g.map s.offset.groupKey) =
      s.followedBy (e.setGroup n g) := by
  cases n with
  | inst i => exact modifyInstance_followedBy (by intro _; rfl) i
  | host h => exact modifyHost_followedBy (by intro _; rfl) h
  | group k => exact modifyGroup_followedBy (by intro _; rfl) k

theorem modifyChildren_followedBy {f u : List Node → List Node}
    (h : ∀ ns, f (ns.map s.offset.node) = (u ns).map s.offset.node) (g : GroupKey) :
    (s.followedBy e).modifyChildren (s.offset.groupKey g) f = s.followedBy (e.modifyChildren g u) :=
  modifyGroup_followedBy (fun group => by simp only [Offset.group, h]) g

theorem modifyResidents_followedBy {f u : List InstanceKey → List InstanceKey}
    (h : ∀ is, f (is.map s.offset.instanceKey) = (u is).map s.offset.instanceKey) (k : HostKey) :
    (s.followedBy e).modifyResidents (s.offset.hostKey k) f =
      s.followedBy (e.modifyResidents k u) :=
  modifyHost_followedBy (fun host => by simp only [Offset.host, h]) k

theorem leaveGroup_followedBy (n : Node) :
    (s.followedBy e).leaveGroup (s.offset.node n) = s.followedBy (e.leaveGroup n) := by
  rw [leaveGroup, leaveGroup, groupOf?_followedBy]
  cases e.groupOf? n with
  | none => rfl
  | some g =>
    simp only [Option.map_some]
    rw [modifyChildren_followedBy (s.offset.filter_node n)]
    exact setGroup_followedBy n none

theorem enterGroup_followedBy (n : Node) (g : GroupKey) :
    (s.followedBy e).enterGroup (s.offset.node n) (s.offset.groupKey g) =
      s.followedBy (e.enterGroup n g) := by
  rw [enterGroup, modifyChildren_followedBy (u := (· ++ [n])) (by simp)]
  exact setGroup_followedBy n (some g)

theorem placeIn_followedBy (hc : e.Coherent) (hg : e.Grounded) (n : Node) (g : GroupKey) :
    (s.followedBy e).placeIn (s.offset.node n) (s.offset.groupKey g) =
      s.followedBy (e.placeIn n g) := by
  simp only [placeIn, standIn_followedBy, groupOf?_followedBy_iff, encloses_followedBy hc hg,
    leaveGroup_followedBy, enterGroup_followedBy]
  split
  · rfl
  split
  · rfl
  · rfl

theorem leaveHost_followedBy (i : InstanceKey) :
    (s.followedBy e).leaveHost (s.offset.instanceKey i) = s.followedBy (e.leaveHost i) := by
  rw [leaveHost, leaveHost, hostOf?_followedBy]
  cases e.hostOf? i with
  | none => rfl
  | some h => exact modifyResidents_followedBy (s.offset.filter_instanceKey i) h

theorem takePlace_followedBy (i : InstanceKey) (h : HostKey) (g : GroupKey) :
    (s.followedBy e).takePlace (s.offset.instanceKey i) (s.offset.hostKey h) (s.offset.groupKey g) =
      s.followedBy (e.takePlace i h g) := by
  have hthere := groupOf?_followedBy_iff (s := s) (e := e) (.host h) g
  have hleave := leaveGroup_followedBy (s := s) (e := e) (.host h)
  simp only [Offset.node] at hthere hleave
  simp only [takePlace, hthere, hleave]
  split
  · exact modifyChildren_followedBy (s.offset.filter_node (.inst i)) g
  · have hswap := modifyChildren_followedBy (e := e.leaveGroup (.host h))
      (s.offset.swapOrAppend_node (.inst i) (.host h)) g
    simp only [Offset.node] at hswap
    rw [hswap]
    exact setGroup_followedBy (.host h) (some g)

theorem yieldPlace_followedBy (i : InstanceKey) (h : HostKey) :
    (s.followedBy e).yieldPlace (s.offset.instanceKey i) (s.offset.hostKey h) =
      s.followedBy (e.yieldPlace i h) := by
  have hgroup := groupOf?_followedBy (s := s) (e := e) (.inst i)
  have hset := setGroup_followedBy (s := s) (e := e) (.inst i) none
  simp only [Offset.node, Option.map_none] at hgroup hset
  rw [yieldPlace, yieldPlace, hgroup]
  cases e.groupOf? (.inst i) with
  | none => rfl
  | some g => simp only [Option.map_some, hset, takePlace_followedBy]

theorem enterHost_followedBy (i : InstanceKey) (h : HostKey) :
    (s.followedBy e).enterHost (s.offset.instanceKey i) (s.offset.hostKey h) =
      s.followedBy (e.enterHost i h) := by
  rw [enterHost, modifyResidents_followedBy (u := (· ++ [i])) (by simp)]
  exact modifyInstance_followedBy (by intro _; rfl) i

theorem placeOn_followedBy (i : InstanceKey) (h : HostKey) :
    (s.followedBy e).placeOn (s.offset.instanceKey i) (s.offset.hostKey h) =
      s.followedBy (e.placeOn i h) := by
  have hthere : (s.followedBy e).hostOf? (s.offset.instanceKey i) = some (s.offset.hostKey h) ↔
      e.hostOf? i = some h := by
    rw [hostOf?_followedBy]
    cases e.hostOf? i <;> simp
  simp only [placeOn, hthere, leaveHost_followedBy, yieldPlace_followedBy, enterHost_followedBy]
  split
  · rfl
  · rfl

/-! ### Declaring behind a session -/

theorem take_followedBy (kind : String) : (s.followedBy e).counter.take kind =
    (s.offset.ident (e.counter.take kind).1,
      { s.counter with next := (e.counter.take kind).2.next + s.offset.number }) := by
  have hnext : e.counter.next + s.offset.number + 1 = e.counter.next + 1 + s.offset.number := by
    rw [UInt64.add_assoc, UInt64.add_comm s.offset.number 1, ← UInt64.add_assoc]
  simp only [Counter.take, followedBy, Offset.ident, hnext]

theorem takeIdent_followedBy (kind : String) : (s.followedBy e).takeIdent kind =
    (s.offset.ident (e.takeIdent kind).1, s.followedBy (e.takeIdent kind).2) := by
  rw [takeIdent, take_followedBy]
  rfl

theorem newInstance_followedBy (name : String) : (s.followedBy e).newInstance name =
    (s.offset.instanceKey (e.newInstance name).1, s.followedBy (e.newInstance name).2) := by
  simp only [newInstance, takeIdent_followedBy]
  simp [followedBy, takeIdent, Offset.instanceKey, Offset.inst, offset]

theorem newHost_followedBy : (s.followedBy e).newHost =
    (s.offset.hostKey e.newHost.1, s.followedBy e.newHost.2) := by
  simp only [newHost, takeIdent_followedBy]
  simp [followedBy, takeIdent, Offset.hostKey, Offset.host, offset]

theorem newGroup_followedBy (name : Option String) : (s.followedBy e).newGroup name =
    (s.offset.groupKey (e.newGroup name).1, s.followedBy (e.newGroup name).2) := by
  simp only [newGroup, takeIdent_followedBy]
  simp [followedBy, takeIdent, Offset.groupKey, Offset.group, offset]

theorem newLink_followedBy (source target : InstanceKey) (c : Option ChainKey) :
    (s.followedBy e).newLink (s.offset.instanceKey source) (s.offset.instanceKey target)
      (c.map s.offset.chainKey) =
      (s.offset.linkKey (e.newLink source target c).1, s.followedBy (e.newLink source target c).2) := by
  have hkey : (s.followedBy e).nextLink = s.offset.linkKey e.nextLink := by
    simp [nextLink, followedBy, Offset.linkKey, offset]
  have hchain : (s.followedBy e).nextChain = s.offset.chainKey e.nextChain := by
    simp [nextChain, followedBy, Offset.chainKey, offset]
  rw [newLink_eq, newLink_eq, hkey, hchain, isMany_followedBy, take_followedBy]
  cases c with
  | none => simp [followedBy, Offset.link]
  | some c =>
    have hchains : (s.followedBy e).chains.modify (s.offset.chainKey c).index
        (· ++ [s.offset.linkKey e.nextLink]) =
        s.chains ++ (e.chains.modify c.index (· ++ [e.nextLink])).map (·.map s.offset.linkKey) :=
      modify_append_map _ _ (by simp) _
    simp only [Option.map_some, hchains]
    simp [followedBy, Offset.link]

theorem annotate_followedBy (i : InstanceKey) (text : String) :
    (s.followedBy e).annotate (s.offset.instanceKey i) text = s.followedBy (e.annotate i text) :=
  modifyInstance_followedBy (by intro _; rfl) i

theorem replicateInstance_followedBy (i : InstanceKey) :
    (s.followedBy e).replicateInstance (s.offset.instanceKey i) =
      s.followedBy (e.replicateInstance i) :=
  modifyInstance_followedBy (by intro _; rfl) i

theorem replicateHost_followedBy (h : HostKey) :
    (s.followedBy e).replicateHost (s.offset.hostKey h) = s.followedBy (e.replicateHost h) :=
  modifyHost_followedBy (by intro _; rfl) h

theorem modify_followedBy (l : LinkKey) (m : Modifier) :
    (s.followedBy e).modify (s.offset.linkKey l) m = s.followedBy (e.modify l m) := by
  rw [modify, modify, link?_followedBy]
  cases e.link? l with
  | none => rfl
  | some link =>
    have hmany : (s.followedBy e).touchesMany (s.offset.link link) = e.touchesMany link := by
      rw [touchesMany, touchesMany]
      exact congrArg₂ _ (isMany_followedBy _) (isMany_followedBy _)
    simp only [Option.map_some, hmany]
    exact modifyLink_followedBy (by intro _; cases m <;> rfl) l

theorem modifyAll_followedBy (l : LinkKey) : ∀ (ms : List Modifier) {e : Session},
    (s.followedBy e).modifyAll (s.offset.linkKey l) ms = s.followedBy (e.modifyAll l ms)
  | [], _ => rfl
  | m :: ms, e => by
    rw [modifyAll, List.foldl_cons, modify_followedBy]
    exact modifyAll_followedBy l ms

theorem extend_followedBy (l : LinkKey) (next : InstanceKey) :
    (s.followedBy e).extend (s.offset.linkKey l) (s.offset.instanceKey next) =
      (s.offset.linkKey (e.extend l next).1, s.followedBy (e.extend l next).2) := by
  rw [extend, extend, link?_followedBy]
  cases e.link? l with
  | none => rfl
  | some link => exact newLink_followedBy link.target next (some link.chain)

end Session

end Schematic
