import Schematic.Proofs.Document.Names
import Schematic.Proofs.Registration
import Schematic.Proofs.Session.Paths

/-! The links of a declared document. Each path that resolves is drawn in a chain of its own, one after
    the other and system after system, and nothing else is added to the links and chains of the session
    it is declared in. -/

namespace Schematic

open List (Forall₂)

/-! ### Paths that resolve -/

namespace Declared

/-- The instances that an entry's path runs through: at least two, and every id names one. -/
def route? (d : Declared) (entry : LinkEntry) : Option (List InstanceKey) :=
  if 2 ≤ entry.path.length then entry.path.mapM d.instance? else none

/-- The entries that are drawn, each with the instances that its path runs through. -/
def routes (d : Declared) (entries : List LinkEntry) : List (LinkEntry × List InstanceKey) :=
  entries.filterMap fun entry => (d.route? entry).map (entry, ·)

theorem path?_eq_mapM (d : Declared) : ∀ ids : List String, d.path? ids = ids.mapM d.instance?
  | [] => rfl
  | id :: ids => by
    rw [path?, List.mapM_cons, d.path?_eq_mapM ids]
    cases d.instance? id with
    | none => rfl
    | some i => cases ids.mapM d.instance? <;> rfl

theorem length_of_path? {d : Declared} : ∀ {ids : List String} {is : List InstanceKey},
    d.path? ids = some is → is.length = ids.length
  | [], is, h => by cases h; rfl
  | id :: ids, is, h => by
    rw [path?] at h
    split at h
    · next hids =>
      cases h
      rw [List.length_cons, List.length_cons, length_of_path? hids]
    · cases h

theorem routes_cons (d : Declared) (entry : LinkEntry) (entries : List LinkEntry) :
    d.routes (entry :: entries) =
      ((d.route? entry).map (entry, ·)).toList ++ d.routes entries := by
  rw [routes, List.filterMap_cons]
  cases d.route? entry <;> rfl

/-- Where every path resolves, every entry is drawn. -/
theorem length_routes {d : Declared} : ∀ {entries : List LinkEntry},
    (∀ entry ∈ entries, (d.route? entry).isSome) → (d.routes entries).length = entries.length
  | [], _ => rfl
  | entry :: entries, h => by
    obtain ⟨hentry, hrest⟩ := List.forall_mem_cons.mp h
    obtain ⟨path, hpath⟩ := Option.isSome_iff_exists.mp hentry
    rw [routes_cons, hpath, Option.map_some, Option.toList_some, List.singleton_append,
      List.length_cons, length_routes hrest, List.length_cons]

end Declared

/-! ### Drawing them -/

namespace Session

variable {s t u : Session}

/-- For every entry that is drawn there is the head of a new chain that draws it. -/
def HeadsAll (s t : Session) (d : Declared) (entries : List LinkEntry) (heads : List LinkKey) : Prop :=
  Forall₂ (fun r head => Heads s t r.1 r.2 head) (d.routes entries) heads

theorem HeadsAll.mono {s' : Session} {d : Declared} {entries : List LinkEntry}
    {heads : List LinkKey} (h : HeadsAll s' t d entries heads)
    (hs : ∀ {c}, s.HasChain c → s'.HasChain c) (ht : Appends t u) : HeadsAll s u d entries heads :=
  h.imp fun _ _ hhead => hhead.mono hs ht

/-- The entries of a system are drawn one after the other. -/
theorem connectPaths_draws (d : Declared) : ∀ (entries : List LinkEntry) (s : Session),
    Adds s (s.connectPaths d entries).2 (s.connectPaths d entries).1 ∧
      HeadsAll s (s.connectPaths d entries).2 d entries (s.connectPaths d entries).1
  | [], s => ⟨.nothing s, .nil⟩
  | entry :: rest, s => by
    have hskip : d.route? entry = none → ∀ {t heads}, HeadsAll s t d rest heads →
        HeadsAll s t d (entry :: rest) heads := by
      intro hnone t heads h
      rwa [HeadsAll, Declared.routes_cons, hnone]
    simp only [connectPaths]
    cases hpath : d.path? entry.path with
    | none =>
      obtain ⟨hadds, hheads⟩ := connectPaths_draws d rest s
      refine ⟨hadds, hskip ?_ hheads⟩
      rw [Declared.route?, ← Declared.path?_eq_mapM, hpath]
      split <;> rfl
    | some path =>
      have hlength := Declared.length_of_path? hpath
      by_cases hlen : 2 ≤ path.length
      · obtain ⟨t, ht, hadds, hhead⟩ := connectPath_eq (s := s) entry hlen
        obtain ⟨hadds', hheads⟩ := connectPaths_draws d rest t
        have hroute : d.route? entry = some path := by
          rw [Declared.route?, if_pos (by omega), ← Declared.path?_eq_mapM, hpath]
        simp only [ht]
        refine ⟨hadds.append hadds', ?_⟩
        rw [HeadsAll, Declared.routes_cons, hroute]
        exact .cons (hhead.mono id hadds'.appends) (hheads.mono hadds.appends.hasChain (.refl _))
      · -- a path of one instance, or of none, draws nothing
        have hshort := connectPath_of_short (s := s) entry (Nat.not_le.mp hlen)
        obtain ⟨hadds, hheads⟩ := connectPaths_draws d rest s
        simp only [hshort]
        refine ⟨hadds, hskip ?_ hheads⟩
        rw [Declared.route?, if_neg (by omega)]

end Session

namespace Draft

open Session (Adds Appends HeadsAll)

/-- Systems are drawn one after the other. -/
theorem addSystems_draws : ∀ (entries : List SystemEntry) (d : Draft), ∃ systems : List (List LinkKey),
    (entries.foldl addSystem d).declared =
      { d.declared with systems := d.declared.systems ++ systems } ∧
      Adds d.session (entries.foldl addSystem d).session systems.flatten ∧
      Forall₂ (fun entry heads => HeadsAll d.session (entries.foldl addSystem d).session d.declared
        entry.links heads) entries systems
  | [], d => ⟨[], by rw [List.append_nil]; rfl, .nothing _, .nil⟩
  | entry :: rest, d => by
    obtain ⟨hadds, hheads⟩ := Session.connectPaths_draws d.declared entry.links d.session
    obtain ⟨systems, hsystems, hadds', hheads'⟩ := addSystems_draws rest (d.addSystem entry)
    refine ⟨(d.session.connectPaths d.declared entry.links).1 :: systems, ?_, hadds.append hadds', ?_⟩
    · rw [List.foldl_cons, hsystems, Declared.mk.injEq]
      exact ⟨rfl, List.append_assoc ..⟩
    · exact .cons (hheads.mono id hadds'.appends)
        (hheads'.imp fun _ _ h => h.mono hadds.appends.hasChain (.refl _))

end Draft

/-! ### The document -/

namespace Document

open Session (Adds Appends HeadsAll)

/-- Links, chains and what is known of systems. -/
def drawings (d : Draft) : Array Link × Array (List LinkKey) × List (List LinkKey) :=
  (d.session.links, d.session.chains, d.declared.systems)

theorem drawings_settle (d : Draft) (node : Option Node) (within : Option String) :
    drawings (d.settle node within) = drawings d := by
  unfold Draft.settle
  split
  · next n g _ =>
    have hsame := Session.sameElements_placeIn (s := d.session) n g
    simp only [drawings, hsame.links, hsame.chains]
  · rfl

theorem drawings_lodge (d : Draft) (i : InstanceEntry) : drawings (d.lodge i) = drawings d := by
  unfold Draft.lodge
  split
  · next key h _ _ =>
    have hsame := Session.sameElements_placeOn (s := d.session) key h
    simp only [drawings, hsame.links, hsame.chains]
  · rfl

/-- Elements and what is inside what come without links. -/
theorem drawings_nest (doc : Document) (s : Session) :
    drawings (doc.nest (doc.elements s)) = (s.links, s.chains, []) := by
  have hhost : ∀ d h, drawings (Draft.addHost d h) = drawings d := by
    intro d h
    simp only [Draft.addHost]
    split <;> rfl
  have hinstance : ∀ d i, drawings (Draft.addInstance d i) = drawings d := by
    intro d i
    rw [Draft.addInstance_eq]
    rfl
  rw [nest, Draft.foldl_keeps (v := drawings) drawings_lodge,
    Draft.foldl_keeps (f := Draft.settleInstance) fun d i => drawings_settle d _ _,
    Draft.foldl_keeps (f := Draft.settleHost) fun d i => drawings_settle d _ _,
    Draft.foldl_keeps (f := Draft.settleGroup) fun d i => drawings_settle d _ _, elements,
    Draft.foldl_keeps (v := drawings) hinstance, containers,
    Draft.foldl_keeps (v := drawings) hhost,
    Draft.foldl_keeps (f := Draft.addGroup) (v := drawings) fun _ _ => rfl]
  rfl

/-- Once everything is in its place, the systems are drawn. -/
theorem declare_adds (doc : Document) (s : Session) : ∃ systems : List (List LinkKey),
    (doc.declare s).1 = { (doc.nest (doc.elements s)).declared with systems } ∧
      Adds (doc.nest (doc.elements s)).session (doc.declare s).2 systems.flatten ∧
      Forall₂ (fun entry heads => HeadsAll (doc.nest (doc.elements s)).session (doc.declare s).2
        (doc.declare s).1 entry.links heads) doc.systems systems := by
  obtain ⟨systems, hdeclared, hadds, hheads⟩ :=
    Draft.addSystems_draws doc.systems (doc.nest (doc.elements s))
  have hstart : (doc.nest (doc.elements s)).declared.systems = [] :=
    congrArg (·.2.2) (drawings_nest doc s)
  rw [hstart, List.nil_append] at hdeclared
  refine ⟨systems, hdeclared, hadds, ?_⟩
  rw [declare_eq, hdeclared]
  exact hheads

/-- In a document without faults every path resolves. -/
theorem length_routes_declare {doc : Document} (h : doc.WellFormed) (s : Session)
    {entry : SystemEntry} (hentry : entry ∈ doc.systems) :
    ((doc.declare s).1.routes entry.links).length = entry.links.length := by
  refine Declared.length_routes fun l hl => ?_
  have hpath : ∀ ids : List String, (∀ id ∈ ids, doc.Has .inst id) →
      (ids.mapM (doc.declare s).1.instance?).isSome := by
    intro ids hids
    induction ids with
    | nil => rfl
    | cons id ids ih =>
      obtain ⟨hid, hrest⟩ := List.forall_mem_cons.mp hids
      obtain ⟨i, hi, rfl⟩ := has_inst_iff.mp hid
      obtain ⟨j, hj⟩ := List.getElem?_of_mem hi
      obtain ⟨is, his⟩ := Option.isSome_iff_exists.mp (ih hrest)
      rw [List.mapM_cons, instance?_of_getElem (ids_nodup_iff.mp h.ids_nodup).2.2.1 s hj, his]
      rfl
  rw [Declared.route?, if_pos (h.path_length entry hentry l hl)]
  exact hpath l.path (h.path entry hentry l hl)

/-- `t` is `s` with the paths of a document drawn, system after system, each in a new chain; `d` has
    the first link of each. -/
structure DrawsPaths (doc : Document) (s : Session) (d : Declared) (t : Session) : Prop where
  length : d.systems.length = doc.systems.length
  heads : ∀ k entry, doc.systems[k]? = some entry →
    HeadsAll s t d entry.links (d.systemLinks k)
  /-- The new chains are those of the paths, in order. -/
  chains_size : t.chains.size = s.chains.size + d.systems.flatten.length
  chainOf? : d.systems.flatten.map t.chainOf? =
    (List.range' s.chains.size d.systems.flatten.length).map fun n => some ⟨n⟩
  /-- The new links are in them. -/
  new : ∀ {l}, t.HasLink l → ¬ s.HasLink l →
    ∃ head ∈ d.systems.flatten, ∃ c, t.chainOf? head = some c ∧ l ∈ t.chain c
  old_link : ∀ {l}, s.HasLink l → t.link? l = s.link? l
  old_chain : ∀ {c}, s.HasChain c → t.chain c = s.chain c
  /-- In a document without faults no path is left out. -/
  complete : doc.validate = .ok () → ∀ k entry, doc.systems[k]? = some entry →
    (d.systemLinks k).length = entry.links.length

/-- Declaring a document draws those paths of it that have at least two ids, all of which stand for
    instances, and adds no other link and no other chain. -/
theorem declare_draws_paths (doc : Document) {s : Session} (hs : s.Built) :
    DrawsPaths doc s (doc.declare s).1 (doc.declare s).2 := by
  have hlinks : (doc.nest (doc.elements s)).session.links = s.links :=
    congrArg (·.1) (drawings_nest doc s)
  have hchains : (doc.nest (doc.elements s)).session.chains = s.chains :=
    congrArg (·.2.1) (drawings_nest doc s)
  obtain ⟨systems, hdeclared, hadds, hheads⟩ := declare_adds doc s
  have hsystems : (doc.declare s).1.systems = systems := congrArg (·.systems) hdeclared
  have hnew : ∀ {c}, s.HasChain c ↔ (doc.nest (doc.elements s)).session.HasChain c := by
    intro c
    rw [Session.HasChain, Session.HasChain, hchains]
  have hsize : (doc.declare s).2.chains.size = s.chains.size + systems.flatten.length := by
    rw [← hchains]
    exact hadds.chains_size
  have hchainOf : systems.flatten.map (doc.declare s).2.chainOf? =
      (List.range' s.chains.size systems.flatten.length).map fun n => some ⟨n⟩ := by
    rw [← hchains]
    exact hadds.chainOf?
  have hall : ∀ k entry, doc.systems[k]? = some entry →
      HeadsAll s (doc.declare s).2 (doc.declare s).1 entry.links ((doc.declare s).1.systemLinks k) := by
    intro k entry hk
    obtain ⟨hlen, hget⟩ := List.forall₂_iff_get.mp hheads
    obtain ⟨hlt, rfl⟩ := List.getElem?_eq_some_iff.mp hk
    have hat : (doc.declare s).1.systemLinks k = systems[k] := by
      rw [Declared.systemLinks, hsystems, List.getElem?_eq_getElem (hlen ▸ hlt), Option.getD_some]
    rw [hat]
    exact (hget k hlt (hlen ▸ hlt)).mono hnew.mp (.refl _)
  refine ⟨?_, hall, ?_, ?_, fun {l} hl hold => ?_, fun {l} hl => ?_, fun {c} hc => ?_, ?_⟩
  · rw [hsystems]
    exact hheads.length_eq.symm
  · rw [hsystems]; exact hsize
  · rw [hsystems]; exact hchainOf
  · have hlinked : (doc.declare s).2.Linked := (hs.call (.declare doc) trivial).sound.linked
    obtain ⟨link, hlink⟩ := Session.hasLink_iff.mp hl
    have hfresh : ¬ s.HasChain link.chain := fun hc =>
      hadds.new hlink (by rwa [Session.HasLink, hlinks]) (hnew.mp hc)
    have hchain := hlinked.hasChain hlink
    -- a new chain has a head, as they are numbered alike
    have hin : some link.chain ∈ systems.flatten.map (doc.declare s).2.chainOf? := by
      rw [hchainOf, List.mem_map]
      refine ⟨link.chain.index, ?_, rfl⟩
      rw [Session.HasChain] at hfresh hchain
      rw [List.mem_range'_1]
      omega
    obtain ⟨head, hhead, hc⟩ := List.mem_map.mp hin
    exact ⟨head, by rwa [hsystems], _, hc, (hlinked.member_iff l _).mpr ⟨link, hlink, rfl⟩⟩
  · rw [hadds.appends.link? (by rwa [Session.HasLink, hlinks]), Session.link?, hlinks, Session.link?]
  · rw [hadds.appends.chain (hnew.mp hc), Session.chain, hchains, Session.chain]
  · intro hvalid k entry hk
    rw [← length_routes_declare (validate_eq_ok.mp hvalid) s (List.mem_of_getElem? hk)]
    exact (hall k entry hk).length_eq.symm

/-- A path of three instances, and one that ends at an instance that is not there. -/
def sketch : Document where
  instances := [{ id := "web" }, { id := "api", multiple := true }, { id := "db" }]
  systems := [{ name := "paths", links := [
    { path := ["web", "api", "db"], bidirectional := true, label := some "asks" },
    { path := ["db", "cache"] }] }]

/-- In a session that has links already, just the first path of the sketch is drawn. -/
theorem sketch_draws_paths : Session.nested.Built ∧ ∃ head c,
    (sketch.declare .nested).1.systemLinks 0 = [head] ∧
      (sketch.declare .nested).2.chainOf? head = some c ∧
      ((sketch.declare .nested).2.chain c).length = 2 := by
  have hheads := (declare_draws_paths sketch Session.nested_built).heads 0 sketch.systems[0] rfl
  have hroutes : (sketch.declare .nested).1.routes sketch.systems[0].links =
      [({ path := ["web", "api", "db"], bidirectional := true, label := some "asks" },
        [⟨3⟩, ⟨4⟩, ⟨5⟩])] := by decide
  rw [HeadsAll, hroutes] at hheads
  obtain ⟨head, rest, ⟨c, -, hc, -, hdraws⟩, hnil, hlinks⟩ := List.forall₂_cons_left_iff.mp hheads
  rw [List.forall₂_nil_left_iff.mp hnil] at hlinks
  exact ⟨Session.nested_built, head, c, hlinks, hc, Nat.succ.inj hdraws.length⟩

end Document

end Schematic
