import Schematic.Proofs.Checked.Session
import Schematic.Proofs.Dot.Tree
import Schematic.Proofs.System

/-! Systems and drawings with nothing taken for granted, in the way of the checked operations of a
    session: every key is looked up or the whole fails, and a drawing goes inwards for as long as there
    are groups in groups, unless it runs out of rounds. -/

namespace Schematic.Checked

variable (s : Session)

/-! ### Systems -/

/-- Registers the outermost container of a node, and names it in a message. -/
def register (rounds : Nat) (sys : System) (n : Node) : Option System := do
  let root ← outermost s rounds n
  let _ ← s.identOf? root
  some { sys with nodes := insertLast sys.nodes root }

/-- Registers a link with both its ends. -/
def addLink (rounds : Nat) (sys : System) (l : LinkKey) : Option System := do
  let link ← s.link? l
  let sys ← register s rounds sys (.inst link.source)
  let sys ← register s rounds sys (.inst link.target)
  some { sys with links := insertLast sys.links l }

/-- Registers all links of the chain of a link. -/
def addChain (rounds : Nat) (sys : System) (l : LinkKey) : Option System := do
  let link ← s.link? l
  let members ← s.chains[link.chain.index]?
  members.foldlM (addLink s rounds) sys

/-- Registers the chains of all the links given. -/
def is (rounds : Nat) (sys : System) (ls : List LinkKey) : Option System :=
  ls.foldlM (addChain s rounds) sys

/-- Registers nodes that are drawn even without links. -/
def contains (rounds : Nat) (sys : System) (ns : List Node) : Option System :=
  ns.foldlM (register s rounds) sys

/-! ### Drawings -/

/-- The statement for an instance. -/
def leaf (pad : String) (i : InstanceKey) : Option String :=
  (s.instance? i).map fun inst => Dot.line pad (Dot.instanceBody s.theme.palette inst)

/-- The text of a node with everything inside. -/
def node : Nat → String → Node → Option String
  | _, pad, .inst i => leaf s pad i
  | _, pad, .host h => do
    let host ← s.host? h
    let inside ← host.instances.mapM (leaf s (pad ++ " "))
    some (Dot.cluster pad host.ident (Dot.hostStyle s.theme.palette host) (String.join inside))
  | 0, _, .group _ => none
  | rounds + 1, pad, .group g => do
    let group ← s.group? g
    let inside ← group.children.mapM (node rounds (pad ++ " "))
    some (Dot.cluster pad group.ident (Dot.groupStyle s.theme.palette group) (String.join inside))

/-- The statement for a link. -/
def edge (pad : String) (l : LinkKey) : Option String := do
  let link ← s.link? l
  let _ ← s.identOf? (.inst link.source)
  let _ ← s.identOf? (.inst link.target)
  let e := Edge.ofLink s link
  let tail ← s.identOf? (.inst e.tail)
  let head ← s.identOf? (.inst e.head)
  some (Dot.line pad (tail.text ++ " -> " ++ head.text ++ " [ "
    ++ ", ".intercalate (Dot.edgeOptions s.theme.palette e link.label) ++ " ];"))

/-- The text of a system. -/
def render (rounds : Nat) (sys : System) : Option String := do
  let nodes ← sys.nodes.mapM (node s rounds " ")
  let links ← sys.links.mapM (edge s " ")
  let p := s.theme.palette
  some (Dot.line "" ("digraph" ++ Dot.opening) ++ Dot.graphLine p sys.name ++ Dot.nodeDefaults p
    ++ Dot.edgeDefaults p ++ (String.join nodes ++ String.join links) ++ Dot.closing)

variable {s} {rounds : Nat}

/-! ### Nothing fails -/

theorem foldlM_eq_some {α β : Type} {f : β → α → Option β} {g : β → α → β} :
    ∀ {as : List α} {b : β}, (∀ b, ∀ a ∈ as, f b a = some (g b a)) →
      as.foldlM f b = some (as.foldl g b)
  | [], _, _ => rfl
  | a :: as, b, h => by
    rw [List.foldlM_cons, h b a (List.mem_cons_self ..), List.foldl_cons]
    exact foldlM_eq_some fun b a ha => h b a (List.mem_cons_of_mem _ ha)

theorem mapM_eq_some {α β : Type} {f : α → Option β} {g : α → β} :
    ∀ {xs : List α}, (∀ x ∈ xs, f x = some (g x)) → xs.mapM f = some (xs.map g)
  | [], _ => rfl
  | x :: xs, h => by
    have hrest := mapM_eq_some fun y hy => h y (List.mem_cons_of_mem _ hy)
    rw [List.mapM_cons, h x (List.mem_cons_self ..), hrest]
    rfl

theorem register_eq (hs : s.Sound) (hr : s.nestingBound < rounds) (sys : System) {n : Node}
    (hn : s.HasNode n) : register s rounds sys n = some (sys.register s n) := by
  obtain ⟨ident, hident⟩ := hasNode_identOf (hs.hasNode_outermost hn)
  rw [register, outermost_eq hs hn hr]
  simp only [Option.bind_eq_bind, Option.bind_some, hident]
  rfl

theorem addLink_eq (hs : s.Sound) (hr : s.nestingBound < rounds) (sys : System) {l : LinkKey}
    (hl : s.HasLink l) : addLink s rounds sys l = some (sys.addLink s l) := by
  obtain ⟨link, hlink⟩ := Session.hasLink_iff.mp hl
  simp only [addLink, System.addLink, hlink, Option.bind_eq_bind, Option.bind_some,
    register_eq hs hr sys (n := .inst link.source) (hs.linked.source hlink),
    register_eq hs hr _ (n := .inst link.target) (hs.linked.target hlink)]

/-- The chain of a link is there. -/
theorem chain_eq (hs : s.Sound) {l : LinkKey} {link : Link} (hl : s.link? l = some link) :
    s.chains[link.chain.index]? = some (s.chain link.chain) := by
  rw [Session.chain, Array.getElem?_eq_getElem (hs.linked.hasChain hl)]
  rfl

theorem addChain_eq (hs : s.Sound) (hr : s.nestingBound < rounds) (sys : System) {l : LinkKey}
    (hl : s.HasLink l) : addChain s rounds sys l = some (sys.addChain s l) := by
  obtain ⟨link, hlink⟩ := Session.hasLink_iff.mp hl
  simp only [addChain, System.addChain, hlink, chain_eq hs hlink, Option.bind_eq_bind,
    Option.bind_some]
  refine foldlM_eq_some fun sys m hm => addLink_eq hs hr sys ?_
  obtain ⟨member, hmember, -⟩ := (hs.linked.member_iff m _).mp hm
  exact Session.hasLink_iff.mpr ⟨member, hmember⟩

theorem is_eq (hs : s.Sound) (hr : s.nestingBound < rounds) (sys : System) {ls : List LinkKey}
    (hls : ∀ l ∈ ls, s.HasLink l) : is s rounds sys ls = some (sys.is s ls) :=
  foldlM_eq_some fun sys l hl => addChain_eq hs hr sys (hls l hl)

theorem contains_eq (hs : s.Sound) (hr : s.nestingBound < rounds) (sys : System) {ns : List Node}
    (hns : ∀ n ∈ ns, s.HasNode n) : contains s rounds sys ns = some (sys.contains s ns) :=
  foldlM_eq_some fun sys n hn => register_eq hs hr sys (hns n hn)

theorem leaf_eq {i : InstanceKey} (hi : s.HasInstance i) (pad : String) :
    leaf s pad i = some (Dot.writeLeaf s pad i) := by
  obtain ⟨inst, hinst⟩ := Session.hasInstance_iff.mp hi
  rw [leaf, Dot.writeLeaf, hinst]
  rfl

theorem writeAll_eq_join (pad : String) (bs : List Dot.Block) :
    Dot.writeAll s pad bs = String.join (bs.map fun b => b.write s pad) := by
  induction bs with
  | nil => rfl
  | cons b bs ih => rw [Dot.writeAll, ih, List.map_cons, String.join_cons]

/-- Going inwards from a node takes no more rounds than there are groups that can be inside. -/
theorem node_eq (hs : s.Sound) {n : Node} (hn : s.HasNode n) :
    ∀ {rounds : Nat} {pad : String}, s.nestingBound < rounds + (s.ancestors n).length →
      node s rounds pad n = some ((Dot.block s n).write s pad) := by
  induction n using hs.inside_induction with
  | h n ih =>
    intro rounds pad hr
    have hinside : ∀ m ∈ s.inside n, s.HasNode m ∧
        (s.ancestors m).length = (s.ancestors n).length + 1 := by
      intro m hm
      have ho := (Session.mem_inside_iff hs.coherent).mp hm
      exact ⟨Session.hasNode_of_outer ho, hs.length_ancestors ho⟩
    rw [Dot.block_eq hs]
    cases n with
    | inst i =>
      cases rounds <;> exact leaf_eq hn pad
    | host h =>
      obtain ⟨host, hhost⟩ := Session.hasHost_iff.mp hn
      have hresidents : s.residents h = host.instances := by rw [Session.residents, hhost]; rfl
      have hbody : host.instances.mapM (leaf s (pad ++ " ")) =
          some (host.instances.map fun i => (Dot.block s (.inst i)).write s (pad ++ " ")) := by
        refine mapM_eq_some fun i hi => ?_
        have hi' := hinside (.inst i) (by rw [Session.inside, hresidents]; exact List.mem_map_of_mem hi)
        rw [leaf_eq (i := i) hi'.1, Dot.block_eq hs]
        rfl
      have hnode : node s rounds pad (.host h) = (s.host? h).bind fun host =>
          (host.instances.mapM (leaf s (pad ++ " "))).bind fun inside =>
            some (Dot.cluster pad host.ident (Dot.hostStyle s.theme.palette host)
              (String.join inside)) := by
        cases rounds <;> rfl
      rw [hnode, hhost, Option.bind_some, hbody, Option.bind_some]
      simp only [Dot.Block.write, Dot.writeCluster, hhost, writeAll_eq_join, Session.inside,
        hresidents, List.map_map, Function.comp_def]
    | group g =>
      obtain ⟨group, hgroup⟩ := Session.hasGroup_iff.mp hn
      have hchildren : s.children g = group.children := by rw [Session.children, hgroup]; rfl
      obtain ⟨rounds, rfl⟩ : ∃ k, rounds = k + 1 :=
        ⟨rounds - 1, by have := hs.length_ancestors_le (.group g); omega⟩
      have hbody : group.children.mapM (node s rounds (pad ++ " ")) =
          some (group.children.map fun m => (Dot.block s m).write s (pad ++ " ")) := by
        refine mapM_eq_some fun m hm => ?_
        have hm' : m ∈ s.inside (.group g) := by rw [Session.inside, hchildren]; exact hm
        exact ih m hm' (hinside m hm').1 (by have := (hinside m hm').2; omega)
      simp only [node, hgroup, Option.bind_eq_bind, Option.bind_some, hbody]
      simp only [Dot.Block.write, Dot.writeCluster, hgroup, writeAll_eq_join, Session.inside,
        hchildren, List.map_map, Function.comp_def]

theorem edge_eq (hs : s.Sound) {l : LinkKey} (hl : s.HasLink l) (pad : String) :
    edge s pad l = some (Dot.writeLink s pad l) := by
  obtain ⟨link, hlink⟩ := Session.hasLink_iff.mp hl
  obtain ⟨a, ha⟩ := hasNode_identOf (n := .inst link.source) (hs.linked.source hlink)
  obtain ⟨b, hb⟩ := hasNode_identOf (n := .inst link.target) (hs.linked.target hlink)
  simp only [edge, Dot.writeLink, hlink, ha, hb, Option.bind_eq_bind, Option.bind_some,
    Dot.edgeBody, Dot.instanceName, Edge.ofLink]
  by_cases h : Edge.turns s link
  · simp [h, ha, hb]
  · simp [h, ha, hb]

/-- Drawing a system that was made from a sound session never fails. -/
theorem render_eq (hs : s.Sound) (hr : s.nestingBound < rounds) {sys : System}
    (hsys : sys.Rooted s) : render s rounds sys = some (Dot.render s sys) := by
  have hnodes : sys.nodes.mapM (node s rounds " ") =
      some (sys.nodes.map fun n => (Dot.block s n).write s " ") :=
    mapM_eq_some fun n hn => node_eq hs (hsys.root n hn).1 (by omega)
  have hlinks : sys.links.mapM (edge s " ") = some (sys.links.map (Dot.writeLink s " ")) := by
    refine mapM_eq_some fun l hl => edge_eq hs ?_ " "
    obtain ⟨link, hlink, -⟩ := hsys.ends l hl
    exact Session.hasLink_iff.mpr ⟨link, hlink⟩
  simp only [render, hnodes, hlinks, Option.bind_eq_bind, Option.bind_some, Dot.render, Dot.body,
    writeAll_eq_join, List.map_map, Function.comp_def]

end Schematic.Checked
