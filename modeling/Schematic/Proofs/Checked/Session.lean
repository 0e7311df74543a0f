import Schematic.Proofs.Builder
import Schematic.Proofs.Session.Inside

/-! The operations of a session with nothing taken for granted. Here a key that names nothing is a
    failure, and looking outwards goes on for as long as something is around, unless it runs out of
    rounds. In a sound session none of this happens: the operations give just what the unchecked ones
    give, for any number of rounds above the bound on nesting. -/

namespace Schematic.Checked

variable (s : Session)

/-! ### Looking outwards -/

/-- The host that is written down with an instance. -/
def hostOf (i : InstanceKey) : Option (Option HostKey) := (s.instance? i).map (·.host)

/-- The group that is written down with a node. -/
def groupOf : Node → Option (Option GroupKey)
  | .inst i => (s.instance? i).map (·.group)
  | .host h => (s.host? h).map (·.group)
  | .group g => (s.group? g).map (·.group)

/-- The container one step further out. -/
def outer (n : Node) : Option (Option Node) :=
  match n with
  | .inst i => do
    match ← hostOf s i with
    | some h => some (some (.host h))
    | none => (groupOf s n).map (·.map .group)
  | n => (groupOf s n).map (·.map .group)

/-- The containers around a node, until there are no more. -/
def ancestors : Nat → Node → Option (List Node)
  | 0, _ => none
  | rounds + 1, n => do
    match ← outer s n with
    | none => some []
    | some o => (ancestors rounds o).map (o :: ·)

/-- The last container around a node. -/
def outermost : Nat → Node → Option Node
  | 0, _ => none
  | rounds + 1, n => do
    match ← outer s n with
    | none => some n
    | some o => outermost rounds o

/-- Looks for `m` around a node and stops where it is found. -/
def isAround (m : Node) : Nat → Node → Option Bool
  | 0, _ => none
  | rounds + 1, n => do
    match ← outer s n with
    | none => some false
    | some o => if o = m then some true else isAround m rounds o

/-- Putting `n` into `g` would put a group inside itself. -/
def encloses (rounds : Nat) (n : Node) (g : GroupKey) : Option Bool :=
  match n with
  | .group _ => if n = .group g then some true else isAround s n rounds (.group g)
  | _ => some false

/-- The node that stands for `n` in groups. -/
def standIn : Node → Option Node
  | .inst i => (hostOf s i).map fun h => (h.map .host).getD (.inst i)
  | n => some n

/-! ### Changing one element -/

def editInstance (i : InstanceKey) (f : Instance → Instance) : Option Session :=
  if s.HasInstance i then some (s.modifyInstance i f) else none

def editHost (h : HostKey) (f : Host → Host) : Option Session :=
  if s.HasHost h then some (s.modifyHost h f) else none

def editGroup (g : GroupKey) (f : Group → Group) : Option Session :=
  if s.HasGroup g then some (s.modifyGroup g f) else none

def editLink (l : LinkKey) (f : Link → Link) : Option Session :=
  if s.HasLink l then some (s.modifyLink l f) else none

def editChildren (g : GroupKey) (f : List Node → List Node) : Option Session :=
  editGroup s g fun group => { group with children := f group.children }

def editResidents (h : HostKey) (f : List InstanceKey → List InstanceKey) : Option Session :=
  editHost s h fun host => { host with instances := f host.instances }

def setGroup (n : Node) (g : Option GroupKey) : Option Session :=
  match n with
  | .inst i => editInstance s i fun inst => { inst with group := g }
  | .host h => editHost s h fun host => { host with group := g }
  | .group k => editGroup s k fun group => { group with group := g }

/-! ### Moving nodes -/

/-- Takes a node out of the group it is in. -/
def leaveGroup (n : Node) : Option Session := do
  match ← groupOf s n with
  | none => some s
  | some g => setGroup (← editChildren s g (·.filter (· ≠ n))) n none

/-- Puts a node into a group. What is left where it is gets named in a message. -/
def placeIn (rounds : Nat) (n : Node) (g : GroupKey) : Option Session := do
  let n ← standIn s n
  if (← groupOf s n) = some g then some s
  else if ← encloses s rounds n g then do
    let _ ← s.identOf? n
    let _ ← s.group? g
    some s
  else setGroup (← editChildren (← leaveGroup s n) g (· ++ [n])) n (some g)

/-- Lets a host take the place that an instance had in group `g`. -/
def takePlace (i : InstanceKey) (h : HostKey) (g : GroupKey) : Option Session := do
  if (← groupOf s (.host h)) = some g then editChildren s g (·.filter (· ≠ .inst i))
  else do
    let s ← leaveGroup s (.host h)
    setGroup (← editChildren s g (Session.swapOrAppend (.inst i) (.host h))) (.host h) (some g)

/-- Takes an instance off the host it is on. -/
def leaveHost (i : InstanceKey) : Option Session := do
  match ← hostOf s i with
  | none => some s
  | some h => editResidents s h (·.filter (· ≠ i))

/-- Takes an instance out of its group, where host `h` takes over its place. -/
def yieldPlace (i : InstanceKey) (h : HostKey) : Option Session := do
  match ← groupOf s (.inst i) with
  | none => some s
  | some g => takePlace (← setGroup s (.inst i) none) i h g

/-- Puts an instance on a host. -/
def placeOn (i : InstanceKey) (h : HostKey) : Option Session := do
  if (← hostOf s i) = some h then some s
  else do
    let s ← yieldPlace (← leaveHost s i) i h
    editInstance (← editResidents s h (· ++ [i])) i fun inst => { inst with host := some h }

/-! ### Links -/

/-- An instance stands for many by itself or by the host it runs on. -/
def isMany (i : InstanceKey) : Option Bool := do
  let inst ← s.instance? i
  if inst.multiple then some true
  else
    match inst.host with
    | none => some false
    | some h => (s.host? h).map (·.multiple)

/-- Adds a link to a chain; without a chain it begins a new one. -/
def newLink (source target : InstanceKey) (chain : Option ChainKey) :
    Option (LinkKey × Session) := do
  let key : LinkKey := ⟨s.links.size⟩
  let (chain, chains) ← match chain with
    | some c => if s.HasChain c then some (c, s.chains.modify c.index (· ++ [key])) else none
    | none => some (⟨s.chains.size⟩, s.chains.push [key])
  let multiple ← isMany s target
  let (ident, s) := s.takeIdent "link"
  some (key, { s with links := s.links.push { ident, source, target, chain, multiple }, chains })

/-- Goes on from the target of link `l` to `next`, in the chain of `l`. -/
def extend (l : LinkKey) (next : InstanceKey) : Option (LinkKey × Session) := do
  let link ← s.link? l
  newLink s link.target next (some link.chain)

/-- Applies a modifier to a link. -/
def modify (l : LinkKey) (m : Modifier) : Option Session := do
  let link ← s.link? l
  let many := (← isMany s link.source) || (← isMany s link.target)
  editLink s l fun link => m.apply many link

/-! ### Steps -/

/-- The session after a step. -/
def run (rounds : Nat) : Step → Option Session
  | .newInstance name => some (s.newInstance name).2
  | .newHost => some s.newHost.2
  | .newGroup name => some (s.newGroup name).2
  | .newSystem name => some (s.newSystem name).2
  | .setTheme theme => some (s.setTheme theme)
  | .annotate i text => editInstance s i fun inst => { inst with notes := inst.notes ++ text }
  | .replicateInstance i => editInstance s i fun inst => { inst with multiple := true }
  | .replicateHost h => editHost s h fun host => { host with multiple := true }
  | .placeOn i h => placeOn s i h
  | .placeIn n g => placeIn s rounds n g
  | .link source target => (newLink s source target none).map (·.2)
  | .extend l next => (extend s l next).map (·.2)
  | .modify l m => modify s l m

/-! ### Nothing fails -/

variable {s}

theorem hostOf_eq {i : InstanceKey} (hi : s.HasInstance i) : hostOf s i = some (s.hostOf? i) := by
  obtain ⟨inst, hinst⟩ := Session.hasInstance_iff.mp hi
  simp [hostOf, Session.hostOf?, hinst]

theorem groupOf_eq {n : Node} (hn : s.HasNode n) : groupOf s n = some (s.groupOf? n) := by
  cases n with
  | inst i =>
    obtain ⟨inst, hinst⟩ := Session.hasInstance_iff.mp hn
    simp [groupOf, Session.groupOf?, hinst]
  | host h =>
    obtain ⟨host, hhost⟩ := Session.hasHost_iff.mp hn
    simp [groupOf, Session.groupOf?, hhost]
  | group g =>
    obtain ⟨group, hgroup⟩ := Session.hasGroup_iff.mp hn
    simp [groupOf, Session.groupOf?, hgroup]

theorem outer_eq {n : Node} (hn : s.HasNode n) : outer s n = some (s.outer? n) := by
  have hgroup := groupOf_eq hn
  cases n with
  | inst i =>
    rw [outer, Session.outer?, hostOf_eq hn, hgroup]
    cases s.hostOf? i <;> rfl
  | host h => exact congrArg (Option.map (Option.map Node.group)) hgroup
  | group g => exact congrArg (Option.map (Option.map Node.group)) hgroup

/-! A climb that ends within the rounds is what each of the loops goes through. -/

theorem ancestors_of_climb : ∀ {path : List Node} {n : Node} {rounds : Nat},
    Climb s.outer? n path → (∀ m ∈ n :: path, s.HasNode m) → path.length < rounds →
    ancestors s rounds n = some path
  | path, n, 0, _, _, hlt => absurd hlt (Nat.not_lt_zero _)
  | [], n, rounds + 1, h, hhas, _ => by
    have ho : s.outer? n = none := h
    simp [ancestors, outer_eq (hhas n (List.mem_cons_self ..)), ho]
  | o :: path, n, rounds + 1, h, hhas, hlt => by
    have hrest := ancestors_of_climb h.2 (fun m hm => hhas m (List.mem_cons_of_mem _ hm))
      (Nat.lt_of_succ_lt_succ hlt)
    simp [ancestors, outer_eq (hhas n (List.mem_cons_self ..)), h.1, hrest]

theorem outermost_of_climb : ∀ {path : List Node} {n : Node} {rounds : Nat},
    Climb s.outer? n path → (∀ m ∈ n :: path, s.HasNode m) → path.length < rounds →
    outermost s rounds n = some (path.getLast?.getD n)
  | path, n, 0, _, _, hlt => absurd hlt (Nat.not_lt_zero _)
  | [], n, rounds + 1, h, hhas, _ => by
    have ho : s.outer? n = none := h
    simp [outermost, outer_eq (hhas n (List.mem_cons_self ..)), ho]
  | o :: path, n, rounds + 1, h, hhas, hlt => by
    have hrest := outermost_of_climb h.2 (fun m hm => hhas m (List.mem_cons_of_mem _ hm))
      (Nat.lt_of_succ_lt_succ hlt)
    rw [List.getLast?_cons, Option.getD_some]
    simp [outermost, outer_eq (hhas n (List.mem_cons_self ..)), h.1, hrest]

theorem isAround_of_climb {m : Node} : ∀ {path : List Node} {n : Node} {rounds : Nat},
    Climb s.outer? n path → (∀ k ∈ n :: path, s.HasNode k) → path.length < rounds →
    isAround s m rounds n = some (path.contains m)
  | path, n, 0, _, _, hlt => absurd hlt (Nat.not_lt_zero _)
  | [], n, rounds + 1, h, hhas, _ => by
    have ho : s.outer? n = none := h
    simp [isAround, outer_eq (hhas n (List.mem_cons_self ..)), ho]
  | o :: path, n, rounds + 1, h, hhas, hlt => by
    have hrest := isAround_of_climb (m := m) h.2 (fun k hk => hhas k (List.mem_cons_of_mem _ hk))
      (Nat.lt_of_succ_lt_succ hlt)
    by_cases hom : o = m
    · simp [isAround, outer_eq (hhas n (List.mem_cons_self ..)), h.1, hom]
    · simp [isAround, outer_eq (hhas n (List.mem_cons_self ..)), h.1, hrest, hom, Ne.symm hom]

section

variable {rounds : Nat}

theorem ancestors_eq (hs : s.Sound) {n : Node} (hn : s.HasNode n) (hr : s.nestingBound < rounds) :
    ancestors s rounds n = some (s.ancestors n) :=
  ancestors_of_climb (Session.climb_ancestors hs.coherent hs.grounded n)
    (fun _ hm => hs.hasNode_ancestor hn hm) (Nat.lt_of_le_of_lt (hs.length_ancestors_le n) hr)

theorem outermost_eq (hs : s.Sound) {n : Node} (hn : s.HasNode n) (hr : s.nestingBound < rounds) :
    outermost s rounds n = some (s.outermost n) :=
  outermost_of_climb (Session.climb_ancestors hs.coherent hs.grounded n)
    (fun _ hm => hs.hasNode_ancestor hn hm) (Nat.lt_of_le_of_lt (hs.length_ancestors_le n) hr)

theorem encloses_eq (hs : s.Sound) (n : Node) {g : GroupKey} (hg : s.HasGroup g)
    (hr : s.nestingBound < rounds) : encloses s rounds n g = some (s.encloses n g) := by
  cases n with
  | inst i => rfl
  | host h => rfl
  | group k =>
    have hwalk := isAround_of_climb (m := .group k)
      (Session.climb_ancestors hs.coherent hs.grounded (.group g))
      (fun _ hm => hs.hasNode_ancestor (n := .group g) hg hm)
      (Nat.lt_of_le_of_lt (hs.length_ancestors_le _) hr)
    rw [encloses, Session.encloses]
    by_cases h : Node.group k = .group g
    · simp [h]
    · simp [h, hwalk]

theorem standIn_eq {n : Node} (hn : s.HasNode n) : standIn s n = some (s.standIn n) := by
  cases n with
  | inst i =>
    rw [standIn, Session.standIn, hostOf_eq hn]
    cases s.hostOf? i <;> rfl
  | host h => rfl
  | group g => rfl

end

/-! ### Changes -/

theorem editChildren_eq {g : GroupKey} (hg : s.HasGroup g) (f : List Node → List Node) :
    editChildren s g f = some (s.modifyChildren g f) := if_pos hg

theorem editResidents_eq {h : HostKey} (hh : s.HasHost h)
    (f : List InstanceKey → List InstanceKey) :
    editResidents s h f = some (s.modifyResidents h f) := if_pos hh

theorem setGroup_eq {n : Node} (hn : s.HasNode n) (g : Option GroupKey) :
    setGroup s n g = some (s.setGroup n g) := by
  cases n with
  | inst i => exact if_pos hn
  | host h => exact if_pos hn
  | group k => exact if_pos hn

theorem leaveGroup_eq {n : Node} (hn : s.HasNode n)
    (hg : ∀ g, s.groupOf? n = some g → s.HasGroup g) :
    leaveGroup s n = some (s.leaveGroup n) := by
  rw [leaveGroup, Session.leaveGroup, groupOf_eq hn]
  cases hgroup : s.groupOf? n with
  | none => rfl
  | some g =>
    have hn' : (s.modifyChildren g (·.filter (· ≠ n))).HasNode n := by simpa using hn
    simp only [Option.bind_eq_bind, Option.bind_some, editChildren_eq (hg g hgroup), setGroup_eq hn']

theorem hasNode_identOf {n : Node} (hn : s.HasNode n) : ∃ ident, s.identOf? n = some ident := by
  cases n with
  | inst i => obtain ⟨x, hx⟩ := Session.hasInstance_iff.mp hn; simp [Session.identOf?, hx]
  | host h => obtain ⟨x, hx⟩ := Session.hasHost_iff.mp hn; simp [Session.identOf?, hx]
  | group g => obtain ⟨x, hx⟩ := Session.hasGroup_iff.mp hn; simp [Session.identOf?, hx]

theorem placeIn_eq (hs : s.Sound) {n : Node} {g : GroupKey} (hn : s.HasNode n) (hg : s.HasGroup g)
    {rounds : Nat} (hr : s.nestingBound < rounds) :
    placeIn s rounds n g = some (s.placeIn n g) := by
  have hm := Session.hasNode_standIn hs.coherent hn
  obtain ⟨ident, hident⟩ := hasNode_identOf hm
  obtain ⟨group, hgroup⟩ := Session.hasGroup_iff.mp hg
  have hleave := leaveGroup_eq hm fun _ h => hs.coherent.hasGroup h
  have hg' : (s.leaveGroup (s.standIn n)).HasGroup g :=
    (Session.hasNode_leaveGroup (s.standIn n) (.group g)).mpr hg
  have hm' : ((s.leaveGroup (s.standIn n)).modifyChildren g (· ++ [s.standIn n])).HasNode
      (s.standIn n) := by simpa using hm
  simp only [placeIn, Session.placeIn, standIn_eq hn, groupOf_eq hm, encloses_eq hs _ hg hr,
    Option.bind_eq_bind, Option.bind_some]
  by_cases hthere : s.groupOf? (s.standIn n) = some g
  · rw [if_pos hthere, if_pos hthere]
  rw [if_neg hthere, if_neg hthere]
  by_cases hself : s.encloses (s.standIn n) g
  · rw [if_pos hself, if_pos hself, hident, hgroup]; rfl
  · rw [if_neg hself, if_neg hself, hleave]
    simp only [Option.bind_some, editChildren_eq hg', setGroup_eq hm']
    rfl

theorem takePlace_eq {i : InstanceKey} {h : HostKey} {g : GroupKey} (hh : s.HasHost h)
    (hg : s.HasGroup g) (hgroup : ∀ k, s.groupOf? (.host h) = some k → s.HasGroup k) :
    takePlace s i h g = some (s.takePlace i h g) := by
  have hg' : (s.leaveGroup (.host h)).HasGroup g :=
    (Session.hasNode_leaveGroup (.host h) (.group g)).mpr hg
  have hh' : ((s.leaveGroup (.host h)).modifyChildren g
      (Session.swapOrAppend (.inst i) (.host h))).HasNode (.host h) := by
    rw [Session.hasNode_modifyChildren, Session.hasNode_leaveGroup]; exact hh
  have hleave := leaveGroup_eq (n := .host h) hh hgroup
  have hparent := groupOf_eq (n := .host h) hh
  simp only [takePlace, Session.takePlace, hparent, Option.bind_eq_bind, Option.bind_some]
  by_cases hthere : s.groupOf? (.host h) = some g
  · rw [if_pos hthere, if_pos hthere, editChildren_eq hg]
  · rw [if_neg hthere, if_neg hthere, hleave]
    simp only [Option.bind_some, editChildren_eq hg', setGroup_eq hh']

theorem leaveHost_eq {i : InstanceKey} (hi : s.HasInstance i)
    (hh : ∀ h, s.hostOf? i = some h → s.HasHost h) : leaveHost s i = some (s.leaveHost i) := by
  rw [leaveHost, Session.leaveHost, hostOf_eq hi]
  cases hhost : s.hostOf? i with
  | none => rfl
  | some h => exact editResidents_eq (hh h hhost) _

theorem yieldPlace_eq {i : InstanceKey} {h : HostKey} (hi : s.HasInstance i) (hh : s.HasHost h)
    (hgroup : ∀ n k, s.groupOf? n = some k → s.HasGroup k) :
    yieldPlace s i h = some (s.yieldPlace i h) := by
  have hset := setGroup_eq (n := .inst i) hi none
  have hparent := groupOf_eq (n := .inst i) hi
  rw [yieldPlace, Session.yieldPlace, hparent]
  cases hg : s.groupOf? (.inst i) with
  | none => rfl
  | some g =>
    simp only [Option.bind_eq_bind, Option.bind_some, hset]
    have hhas : ∀ {n}, s.HasNode n → (s.setGroup (.inst i) none).HasNode n :=
      fun hn => (Session.hasNode_setGroup _ _ _).mpr hn
    refine takePlace_eq (hhas (n := .host h) hh) (hhas (n := .group g) (hgroup _ _ hg)) ?_
    intro k hk
    rw [Session.groupOf?_setGroup (n := .inst i) hi, if_neg (by simp)] at hk
    exact hhas (n := .group k) (hgroup _ _ hk)

theorem placeOn_eq (hs : s.Sound) {i : InstanceKey} {h : HostKey} (hi : s.HasInstance i)
    (hh : s.HasHost h) : placeOn s i h = some (s.placeOn i h) := by
  rw [placeOn, Session.placeOn, hostOf_eq hi]
  simp only [Option.bind_eq_bind, Option.bind_some]
  by_cases hthere : s.hostOf? i = some h
  · rw [if_pos hthere, if_pos hthere]
  rw [if_neg hthere, if_neg hthere, leaveHost_eq hi fun _ hk => hs.coherent.hasHost hk]
  have hleft : ∀ {n}, s.HasNode n → (s.leaveHost i).HasNode n :=
    fun hn => (Session.hasNode_leaveHost i _).mpr hn
  have hyield : yieldPlace (s.leaveHost i) i h = some ((s.leaveHost i).yieldPlace i h) := by
    refine yieldPlace_eq (hleft (n := .inst i) hi) (hleft (n := .host h) hh) fun n k hk => ?_
    rw [Session.groupOf?_leaveHost] at hk
    exact hleft (n := .group k) (hs.coherent.hasGroup hk)
  have hh' : ((s.leaveHost i).yieldPlace i h).HasHost h :=
    (Session.hasNode_yieldPlace i h (.host h)).mpr (hleft (n := .host h) hh)
  have hi' : (((s.leaveHost i).yieldPlace i h).modifyResidents h (· ++ [i])).HasInstance i := by
    refine (Session.hasNode_modifyResidents h _ (.inst i)).mpr ?_
    exact (Session.hasNode_yieldPlace i h (.inst i)).mpr (hleft (n := .inst i) hi)
  simp only [Option.bind_some, hyield, editResidents_eq hh', editInstance, if_pos hi']
  rfl

/-! ### Links -/

theorem isMany_eq (hs : s.Sound) {i : InstanceKey} (hi : s.HasInstance i) :
    isMany s i = some (s.isMany i) := by
  obtain ⟨inst, hinst⟩ := Session.hasInstance_iff.mp hi
  rw [isMany, Session.isMany, hinst]
  by_cases hm : inst.multiple
  · simp [hm]
  cases hhost : inst.host with
  | none => simp [hm, hhost]
  | some h =>
    have hof : s.hostOf? i = some h := by rw [Session.hostOf?, hinst]; exact hhost
    obtain ⟨host, hh⟩ := Session.hasHost_iff.mp (hs.coherent.hasHost hof)
    simp [hm, hhost, hh]

theorem newLink_eq (hs : s.Sound) {source target : InstanceKey} {chain : Option ChainKey}
    (htarget : s.HasInstance target) (hchain : ∀ c, chain = some c → s.HasChain c) :
    newLink s source target chain = some (s.newLink source target chain) := by
  cases chain with
  | none =>
    simp only [newLink, Option.bind_eq_bind, Option.bind_some, isMany_eq hs htarget]
    rfl
  | some c =>
    simp only [newLink, Option.bind_eq_bind, Option.bind_some, isMany_eq hs htarget,
      if_pos (hchain c rfl)]
    rfl

theorem extend_eq (hs : s.Sound) {l : LinkKey} {next : InstanceKey} (hl : s.HasLink l)
    (hnext : s.HasInstance next) : extend s l next = some (s.extend l next) := by
  obtain ⟨link, hlink⟩ := Session.hasLink_iff.mp hl
  have hchain : ∀ c, some link.chain = some c → s.HasChain c := by
    rintro c ⟨⟩
    exact hs.linked.hasChain hlink
  simp only [extend, Session.extend, hlink, Option.bind_eq_bind, Option.bind_some,
    newLink_eq hs hnext hchain]

theorem modify_eq (hs : s.Sound) {l : LinkKey} (hl : s.HasLink l) (m : Modifier) :
    modify s l m = some (s.modify l m) := by
  obtain ⟨link, hlink⟩ := Session.hasLink_iff.mp hl
  rw [modify, Session.modify, hlink]
  simp only [Option.bind_eq_bind, Option.bind_some, isMany_eq hs (hs.linked.source hlink),
    isMany_eq hs (hs.linked.target hlink), editLink, if_pos hl]
  rfl

/-- A step that speaks of elements of a sound session never fails. -/
theorem run_eq (hs : s.Sound) {rounds : Nat} (hr : s.nestingBound < rounds) (t : Step)
    (ht : t.Fits s) : run s rounds t = some (t.run s) := by
  cases t with
  | newInstance name => rfl
  | newHost => rfl
  | newGroup name => rfl
  | newSystem name => rfl
  | setTheme theme => rfl
  | annotate i text => exact if_pos ht
  | replicateInstance i => exact if_pos ht
  | replicateHost h => exact if_pos ht
  | placeOn i h => exact placeOn_eq hs ht.1 ht.2
  | placeIn n g => exact placeIn_eq hs ht.1 ht.2 hr
  | link source target =>
    rw [run, newLink_eq hs ht.2 (by rintro _ ⟨⟩)]
    rfl
  | extend l next =>
    rw [run, extend_eq hs ht.1 ht.2]
    rfl
  | modify l m => exact modify_eq hs ht m

end Schematic.Checked
