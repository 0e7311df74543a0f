import Schematic.Proofs.Document.Layout
import Schematic.Proofs.Session.Behind

/-! A document declared in a session that holds other things. It is declared there as it is in a new
    session: what the session holds stays as it is, and behind it comes a copy of what the new session
    would hold, under keys and numbers that are moved on. So a document can be declared many times, and
    each time gives a copy of its own. -/

namespace Schematic

/-! ### Moved names -/

namespace Offset

variable (o : Offset)

/-- The same names for the moved nodes, and the moved links of every system. -/
def declared (d : Declared) : Declared where
  nodes := d.nodes.map fun p => (p.1, o.node p.2)
  systems := d.systems.map (·.map o.linkKey)

variable (d : Declared)

theorem node?_declared (id : String) : (o.declared d).node? id = (d.node? id).map o.node := by
  have hlookup : ∀ nodes : List (String × Node),
      (nodes.map fun p => (p.1, o.node p.2)).lookup id = (nodes.lookup id).map o.node := by
    intro nodes
    induction nodes with
    | nil => rfl
    | cons p nodes ih =>
      rw [List.map_cons, List.lookup_cons, List.lookup_cons, ih]
      split
      · rfl
      · rfl
  exact hlookup d.nodes

theorem instance?_declared (id : String) :
    (o.declared d).instance? id = (d.instance? id).map o.instanceKey := by
  rw [Declared.instance?, Declared.instance?, node?_declared]
  cases d.node? id with
  | none => rfl
  | some n => cases n <;> rfl

theorem host?_declared (id : String) : (o.declared d).host? id = (d.host? id).map o.hostKey := by
  rw [Declared.host?, Declared.host?, node?_declared]
  cases d.node? id with
  | none => rfl
  | some n => cases n <;> rfl

theorem group?_declared (id : String) : (o.declared d).group? id = (d.group? id).map o.groupKey := by
  rw [Declared.group?, Declared.group?, node?_declared]
  cases d.node? id with
  | none => rfl
  | some n => cases n <;> rfl

theorem bind_group?_declared (within : Option String) :
    within.bind (o.declared d).group? = (within.bind d.group?).map o.groupKey := by
  cases within with
  | none => rfl
  | some id => exact o.group?_declared d id

theorem bind_host?_declared (on : Option String) :
    on.bind (o.declared d).host? = (on.bind d.host?).map o.hostKey := by
  cases on with
  | none => rfl
  | some id => exact o.host?_declared d id

theorem path?_declared : ∀ ids : List String,
    (o.declared d).path? ids = (d.path? ids).map (·.map o.instanceKey)
  | [] => rfl
  | id :: ids => by
    rw [Declared.path?, Declared.path?, instance?_declared, path?_declared ids]
    cases d.instance? id with
    | none => rfl
    | some i => cases d.path? ids <;> rfl

end Offset

/-! ### Paths behind a session -/

namespace Session

variable {s : Session}

theorem extendAll_followedBy (ms : List Modifier) : ∀ (rest : List InstanceKey) (l : LinkKey)
    (e : Session), (s.followedBy e).extendAll ms (s.offset.linkKey l) (rest.map s.offset.instanceKey) =
      (s.offset.linkKey (e.extendAll ms l rest).1, s.followedBy (e.extendAll ms l rest).2)
  | [], _, _ => rfl
  | next :: rest, l, e => by
    simp only [List.map_cons, extendAll, extend_followedBy, modifyAll_followedBy]
    exact extendAll_followedBy ms rest _ _

theorem connectPath_followedBy (entry : LinkEntry) (e : Session) : ∀ path : List InstanceKey,
    (s.followedBy e).connectPath entry (path.map s.offset.instanceKey) =
      ((e.connectPath entry path).1.map s.offset.linkKey, s.followedBy (e.connectPath entry path).2)
  | [] => rfl
  | [_] => rfl
  | first :: second :: rest => by
    have hnew := newLink_followedBy (s := s) (e := e) first second none
    rw [Option.map_none] at hnew
    simp only [List.map_cons, connectPath, hnew, modifyAll_followedBy, extendAll_followedBy]
    cases entry.label with
    | none => rfl
    | some text => simp only [modify_followedBy, Option.map_some]

theorem connectPaths_followedBy (d : Declared) : ∀ (entries : List LinkEntry) (e : Session),
    (s.followedBy e).connectPaths (s.offset.declared d) entries =
      ((e.connectPaths d entries).1.map s.offset.linkKey, s.followedBy (e.connectPaths d entries).2)
  | [], _ => rfl
  | entry :: rest, e => by
    simp only [connectPaths, Offset.path?_declared]
    cases d.path? entry.path with
    | none => exact connectPaths_followedBy d rest e
    | some path =>
      simp only [Option.map_some, connectPath_followedBy, connectPaths_followedBy d rest]
      cases (e.connectPath entry path).1 <;> rfl

end Session

/-! ### Drafts behind a session -/

namespace Draft

/-- The draft in a session that comes behind another one. -/
def behind (s : Session) (d : Draft) : Draft :=
  ⟨s.followedBy d.session, s.offset.declared d.declared⟩

variable {s r : Session} {d : Draft}

theorem addGroup_behind (d : Draft) (g : GroupEntry) :
    (d.behind s).addGroup g = (d.addGroup g).behind s := by
  simp only [addGroup, behind, Session.newGroup_followedBy]
  rfl

theorem addHost_behind (d : Draft) (h : HostEntry) :
    (d.behind s).addHost h = (d.addHost h).behind s := by
  simp only [addHost, behind, Session.newHost_followedBy, Session.replicateHost_followedBy]
  split <;> rfl

theorem addInstance_behind (d : Draft) (i : InstanceEntry) :
    (d.behind s).addInstance i = (d.addInstance i).behind s := by
  simp only [addInstance, behind, Session.newInstance_followedBy]
  cases i.details with
  | none =>
    simp only [Session.replicateInstance_followedBy]
    split <;> rfl
  | some text =>
    simp only [Session.annotate_followedBy, Session.replicateInstance_followedBy]
    split <;> rfl

theorem settle_behind (hc : d.session.Coherent) (hg : d.session.Grounded) (node : Option Node)
    (within : Option String) :
    (d.behind s).settle (node.map s.offset.node) within = (d.settle node within).behind s := by
  simp only [settle, behind, Offset.bind_group?_declared]
  cases node with
  | none => rfl
  | some n =>
    cases within.bind d.declared.group? with
    | none => rfl
    | some g => simp only [Option.map_some, Session.placeIn_followedBy hc hg]

theorem settleGroup_behind (hc : d.session.Coherent) (hg : d.session.Grounded) (g : GroupEntry) :
    (d.behind s).settleGroup g = (d.settleGroup g).behind s := by
  rw [settleGroup, settleGroup, ← settle_behind hc hg, behind, Offset.group?_declared]
  cases d.declared.group? g.id <;> rfl

theorem settleHost_behind (hc : d.session.Coherent) (hg : d.session.Grounded) (h : HostEntry) :
    (d.behind s).settleHost h = (d.settleHost h).behind s := by
  rw [settleHost, settleHost, ← settle_behind hc hg, behind, Offset.host?_declared]
  cases d.declared.host? h.id <;> rfl

theorem settleInstance_behind (hc : d.session.Coherent) (hg : d.session.Grounded)
    (i : InstanceEntry) : (d.behind s).settleInstance i = (d.settleInstance i).behind s := by
  rw [settleInstance, settleInstance, ← settle_behind hc hg, behind, Offset.instance?_declared]
  cases d.declared.instance? i.id <;> rfl

theorem lodge_behind (d : Draft) (i : InstanceEntry) :
    (d.behind s).lodge i = (d.lodge i).behind s := by
  simp only [lodge, behind, Offset.instance?_declared, Offset.bind_host?_declared]
  cases d.declared.instance? i.id with
  | none => rfl
  | some key =>
    cases i.on.bind d.declared.host? with
    | none => rfl
    | some h => simp only [Option.map_some, Session.placeOn_followedBy]

theorem addSystem_behind (d : Draft) (entry : SystemEntry) :
    (d.behind s).addSystem entry = (d.addSystem entry).behind s := by
  simp only [addSystem, behind, Session.connectPaths_followedBy]
  simp only [Offset.declared, List.map_append, List.map_cons, List.map_nil]

/-- What each entry keeps behind a session, a list of entries keeps there, in a draft that began with
    a new session. -/
theorem foldl_behind {α : Type} {f : Draft → α → Draft} {theme : Theme}
    (hgrown : ∀ {d} a, Grown (.fresh theme) d → Grown (.fresh theme) (f d a))
    (hf : ∀ {d} a, d.session.Sound → f (d.behind s) a = (f d a).behind s) :
    ∀ (as : List α) {d : Draft}, Grown (.fresh theme) d →
      as.foldl f (d.behind s) = (as.foldl f d).behind s
  | [], _, _ => rfl
  | a :: as, d, hd => by
    have hsound := (hd.leads.reachable (.fresh theme)).sound
    rw [List.foldl_cons, hf a hsound, foldl_behind hgrown hf as (hgrown a hd), List.foldl_cons]

/-! ### Placements that are refused -/

/-- The group is not put where its entry says. This happens only where it would come to lie inside
    itself; a host or an instance lies around no group. -/
def refuses (d : Draft) (g : GroupEntry) : Bool :=
  match d.declared.group? g.id, g.within.bind d.declared.group? with
  | some k, some outer => (d.session.placeIn (.group k) outer).groupOf? (.group k) ≠ some outer
  | _, _ => false

/-- The entries of groups that are not put where they say, when their turn comes. -/
def refused (d : Draft) : List GroupEntry → List GroupEntry
  | [] => []
  | g :: gs =>
    if d.refuses g then g :: (d.settleGroup g).refused gs else (d.settleGroup g).refused gs

theorem refuses_behind (hc : d.session.Coherent) (hg : d.session.Grounded) (g : GroupEntry) :
    (d.behind s).refuses g = d.refuses g := by
  simp only [refuses, behind, Offset.group?_declared, Offset.bind_group?_declared]
  cases d.declared.group? g.id with
  | none => rfl
  | some k =>
    cases g.within.bind d.declared.group? with
    | none => rfl
    | some outer =>
      have hplace := Session.placeIn_followedBy (s := s) hc hg (.group k) outer
      have hgroup := Session.groupOf?_followedBy_iff (s := s)
        (e := d.session.placeIn (.group k) outer) (.group k) outer
      simp only [Offset.node] at hplace hgroup
      simp only [Option.map_some, hplace, ne_eq, hgroup]

theorem refused_behind {theme : Theme} : ∀ (gs : List GroupEntry) {d : Draft},
    Grown (.fresh theme) d → (d.behind s).refused gs = d.refused gs
  | [], _, _ => rfl
  | g :: gs, d, hd => by
    have hsound := (hd.leads.reachable (.fresh theme)).sound
    rw [refused, refused, refuses_behind hsound.coherent hsound.grounded,
      settleGroup_behind hsound.coherent hsound.grounded, refused_behind gs (grown_settleGroup hd g)]

end Draft

/-! ### The document -/

namespace Document

theorem behind_start (s : Session) (theme : Theme) :
    ({ session := s } : Draft) = Draft.behind s { session := .fresh theme } := by
  rw [Draft.behind, Session.followedBy_fresh]
  rfl

theorem elements_behind (doc : Document) (s : Session) (theme : Theme) :
    doc.elements s = (doc.elements (.fresh theme)).behind s := by
  rw [elements, elements, containers, containers, behind_start s theme,
    List.foldl_hom (Draft.behind s) fun d g => Draft.addGroup_behind d g,
    List.foldl_hom (Draft.behind s) fun d h => Draft.addHost_behind d h,
    List.foldl_hom (Draft.behind s) fun d i => Draft.addInstance_behind d i]

theorem nest_behind (doc : Document) (s : Session) {theme : Theme} {d : Draft}
    (hd : Draft.Grown (.fresh theme) d) : doc.nest (d.behind s) = (doc.nest d).behind s := by
  have hgroups := Draft.grown_foldl (fun g hd => Draft.grown_settleGroup hd g) doc.groups hd
  have hhosts := Draft.grown_foldl (fun h hd => Draft.grown_settleHost hd h) doc.hosts hgroups
  rw [nest, nest,
    Draft.foldl_behind (fun g hd => Draft.grown_settleGroup hd g)
      (fun g hs => Draft.settleGroup_behind hs.coherent hs.grounded g) doc.groups hd,
    Draft.foldl_behind (fun h hd => Draft.grown_settleHost hd h)
      (fun h hs => Draft.settleHost_behind hs.coherent hs.grounded h) doc.hosts hgroups,
    Draft.foldl_behind (fun i hd => Draft.grown_settleInstance hd i)
      (fun i hs => Draft.settleInstance_behind hs.coherent hs.grounded i) doc.instances hhosts,
    List.foldl_hom (Draft.behind s) fun d i => Draft.lodge_behind d i]

/-- Declaring a document in a session is declaring it in a new one and moving it behind the
    session. -/
theorem declare_behind (doc : Document) (s : Session) (theme : Theme) :
    doc.declare s = (s.offset.declared (doc.declare (.fresh theme)).1,
      s.followedBy (doc.declare (.fresh theme)).2) := by
  rw [declare_eq, declare_eq, elements_behind doc s theme, nest_behind doc s (doc.grown_elements _),
    List.foldl_hom (Draft.behind s) fun d e => Draft.addSystem_behind d e]
  rfl

/-- The groups of a document that are not put where it says. -/
def refused (doc : Document) (s : Session) : List GroupEntry :=
  (doc.elements s).refused doc.groups

theorem refused_behind (doc : Document) (s : Session) (theme : Theme) :
    doc.refused s = doc.refused (.fresh theme) := by
  rw [refused, elements_behind doc s theme, Draft.refused_behind _ (doc.grown_elements _), refused]

/-- The first links of paths are there. -/
theorem hasLink_declare (doc : Document) (theme : Theme) {l : LinkKey}
    (hl : l ∈ (doc.declare (.fresh theme)).1.systems.flatten) :
    (doc.declare (.fresh theme)).2.HasLink l := by
  have hdraws := declare_draws_paths doc (.fresh theme)
  have hchain := List.mem_map_of_mem (f := (doc.declare (.fresh theme)).2.chainOf?) hl
  rw [hdraws.chainOf?] at hchain
  obtain ⟨c, -, hc⟩ := List.mem_map.mp hchain
  rw [Session.hasLink_iff]
  obtain ⟨link, hlink, -⟩ := Option.map_eq_some_iff.mp hc.symm
  exact ⟨link, hlink⟩

end Document

/-! ### What is kept -/

namespace Session

/-- Everything of `s` is in `t` as it is in `s`: the elements with their hosts, their groups and all
    else that is said of them, the links and the chains. -/
structure Keeps (s t : Session) : Prop where
  instance? : ∀ {i}, s.HasInstance i → t.instance? i = s.instance? i
  host? : ∀ {h}, s.HasHost h → t.host? h = s.host? h
  group? : ∀ {g}, s.HasGroup g → t.group? g = s.group? g
  link? : ∀ {l}, s.HasLink l → t.link? l = s.link? l
  chain : ∀ {c}, s.HasChain c → t.chain c = s.chain c

variable {s : Session}

theorem keeps_followedBy (s e : Session) : Keeps s (s.followedBy e) where
  instance? h := Array.getElem?_append_left h
  host? h := Array.getElem?_append_left h
  group? h := Array.getElem?_append_left h
  link? h := Array.getElem?_append_left h
  chain h := congrArg (·.getD []) (Array.getElem?_append_left h)

/-- What is moved on behind a session is not in it. -/
theorem not_hasNode_offset (n : Node) : ¬ s.HasNode (s.offset.node n) := by
  cases n <;> exact Nat.not_lt.mpr (Nat.le_add_right ..)

theorem not_hasLink_offset (l : LinkKey) : ¬ s.HasLink (s.offset.linkKey l) :=
  Nat.not_lt.mpr (Nat.le_add_right ..)

theorem hasLink_followedBy {e : Session} {l : LinkKey} (h : e.HasLink l) :
    (s.followedBy e).HasLink (s.offset.linkKey l) := by
  rw [HasLink] at h ⊢
  simp [followedBy, Offset.linkKey, offset, h]

end Session

namespace Document

/-- Declaring a document leaves alone what is there, and puts behind it what it would put into a new
    session, under moved keys and numbers; names stand for the moved nodes. The same placements are
    refused, and what is declared once more has nothing in common with what was declared before. -/
theorem declare_independent (doc : Document) (s : Session) (theme : Theme) :
    doc.declare s = (s.offset.declared (doc.declare (.fresh theme)).1,
      s.followedBy (doc.declare (.fresh theme)).2) ∧
    s.Keeps (doc.declare s).2 ∧
    (∀ id, (doc.declare s).1.node? id =
      ((doc.declare (.fresh theme)).1.node? id).map s.offset.node) ∧
    (∀ a : Ident, a.number.toNat + (s.counter.next - 100).toNat < UInt64.size →
      (s.offset.ident a).number.toNat = a.number.toNat + (s.counter.next - 100).toNat) ∧
    doc.refused s = doc.refused (.fresh theme) ∧
    (∀ id id' n, (doc.declare s).1.node? id = some n →
      (doc.declare (doc.declare s).2).1.node? id' ≠ some n) ∧
    ∀ l ∈ (doc.declare s).1.systems.flatten,
      l ∉ (doc.declare (doc.declare s).2).1.systems.flatten := by
  have hcopy := fun s => declare_behind doc s theme
  refine ⟨hcopy s, ?_, fun id => ?_, fun a => s.offset.toNat_ident a, refused_behind doc s theme,
    fun id id' n hn hn' => ?_, fun l hl hl' => ?_⟩
  · rw [hcopy s]
    exact Session.keeps_followedBy _ _
  · rw [hcopy s]
    exact s.offset.node?_declared _ id
  · have hold : (doc.declare s).2.HasNode n := (grown_declare doc s).named hn
    rw [hcopy (doc.declare s).2, Offset.node?_declared] at hn'
    obtain ⟨m, -, rfl⟩ := Option.map_eq_some_iff.mp hn'
    exact Session.not_hasNode_offset m hold
  · have hold : (doc.declare s).2.HasLink l := by
      rw [hcopy s] at hl ⊢
      rw [Offset.declared, ← List.map_flatten] at hl
      obtain ⟨k, hk, rfl⟩ := List.mem_map.mp hl
      exact Session.hasLink_followedBy (doc.hasLink_declare theme hk)
    rw [hcopy (doc.declare s).2, Offset.declared, ← List.map_flatten] at hl'
    obtain ⟨k, -, rfl⟩ := List.mem_map.mp hl'
    exact Session.not_hasLink_offset k hold

/-- Two groups that ask to be in each other, a host, two instances on it and a path between them. -/
def ring : Document where
  groups := [{ id := "left", within := some "right" }, { id := "right", within := some "left" }]
  hosts := [{ id := "vm", within := some "left" }]
  instances := [{ id := "web", on := some "vm" }, { id := "db", on := some "vm" }]
  systems := [{ name := "all", links := [{ path := ["web", "db"] }] }]

/-- Behind a session that holds other things the second group of the ring is refused as it is in a new
    one; the ring declared again has a host of its own. -/
theorem ring_independent : ring.refused .nested = [{ id := "right", within := some "left" }] ∧
    (ring.declare .nested).1.node? "vm" = some (.host ⟨1⟩) ∧
    (ring.declare (ring.declare .nested).2).1.node? "vm" ≠ some (.host ⟨1⟩) ∧
    (ring.declare .nested).2.group? ⟨0⟩ = Session.nested.group? ⟨0⟩ ∧
    ⟨2⟩ ∈ (ring.declare .nested).1.systems.flatten ∧
    ⟨2⟩ ∉ (ring.declare (ring.declare .nested).2).1.systems.flatten ∧
    (Session.nested.offset.ident ⟨"group", 100⟩).number.toNat = 108 := by
  obtain ⟨-, hkeeps, -, hnumber, hrefused, hnodes, hlinks⟩ :=
    declare_independent ring .nested .dark
  have hvm : (ring.declare .nested).1.node? "vm" = some (.host ⟨1⟩) := by decide
  have hpath : LinkKey.mk 2 ∈ (ring.declare .nested).1.systems.flatten := by decide
  refine ⟨hrefused.trans (by decide), hvm, hnodes _ _ _ hvm, hkeeps.group? (by decide), hpath,
    hlinks _ hpath, (hnumber ⟨"group", 100⟩ (by decide)).trans (by decide)⟩

end Document

end Schematic
