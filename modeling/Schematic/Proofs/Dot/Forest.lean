import Schematic.Proofs.Containment
import Schematic.Proofs.Dot.Tree
import Schematic.Proofs.System

/-! What a drawing shows. Nodes are registered looking outwards and written looking inwards. A node is
    written below just those nodes that lie on its way out, and only one of these can be registered,
    the last; so a node is written once if its outermost container is there, and else not at all. -/

namespace Schematic.Dot

variable {s : Session} {sys : System}

/-! ### Below one node -/

/-- The nodes written for a node, in the order in which they are written. -/
def below (s : Session) (n : Node) : List Node := (visit s n).filterMap Statement.node?

theorem below_eq (hs : s.Sound) (n : Node) :
    below s n = n :: (s.inside n).flatMap (below s) := by
  rw [below, visit_eq hs]
  cases n with
  | inst i => rfl
  | host h =>
    simp [List.filterMap_cons, Statement.node?, List.filterMap_append, List.filterMap_flatMap]
    rfl
  | group g =>
    simp [List.filterMap_cons, Statement.node?, List.filterMap_append, List.filterMap_flatMap]
    rfl

/-- A node is written below itself and below whatever is around it. -/
theorem mem_below (hs : s.Sound) {m n : Node} : m ∈ below s n ↔ n ∈ m :: s.ancestors m := by
  induction n using hs.inside_induction with
  | h n ih =>
    have hclimb := Session.climb_ancestors hs.coherent hs.grounded m
    rw [below_eq hs, List.mem_cons, List.mem_cons, hclimb.mem_iff, List.mem_flatMap, eq_comm]
    refine or_congr_right (exists_congr fun k => ?_)
    rw [Session.mem_inside_iff hs.coherent, and_comm]
    refine and_congr_left fun hk => ih k ?_
    exact (Session.mem_inside_iff hs.coherent).mpr hk

/-- Below one node everything is written once. -/
theorem nodup_below (hs : s.Sound) (n : Node) : (below s n).Nodup := by
  induction n using hs.inside_induction with
  | h n ih =>
    have hinside : ∀ {k}, k ∈ s.inside n ↔ s.outer? k = some n := Session.mem_inside_iff hs.coherent
    have hclimb := Session.climb_ancestors hs.coherent hs.grounded n
    rw [below_eq hs, List.nodup_cons, List.nodup_flatMap]
    refine ⟨?_, ih, (Session.nodup_inside hs.coherent n).pairwise_of_forall_ne ?_⟩
    · -- else something around `n` would be directly inside it
      intro hn
      obtain ⟨k, hk, hnk⟩ := List.mem_flatMap.mp hn
      exact hclimb.not_back ((mem_below hs).mp hnk) (hinside.mp hk)
    · intro k hk k' hk' hne m hm hm'
      have hup := Session.climb_ancestors hs.coherent hs.grounded m
      exact hne (hup.eq_of_next ((mem_below hs).mp hm) ((mem_below hs).mp hm') (hinside.mp hk)
        (hinside.mp hk'))

/-- A visit writes nodes and closes clusters. -/
theorem mem_visit (hs : s.Sound) (n : Node) : ∀ x ∈ visit s n, ∃ m, x = .ofNode m ∨ x = .leave m := by
  induction n using hs.inside_induction with
  | h n ih =>
    intro x hx
    have hbody : ∀ {c : Node}, .ofNode c = Statement.enter c →
        x ∈ Statement.enter c :: ((s.inside n).flatMap (visit s) ++ [.leave c]) →
        ∃ m, x = .ofNode m ∨ x = .leave m := by
      intro c hc hx
      rcases List.mem_cons.mp hx with rfl | hx
      · exact ⟨c, .inl hc.symm⟩
      rcases List.mem_append.mp hx with hx | hx
      · obtain ⟨k, hk, hx⟩ := List.mem_flatMap.mp hx
        exact ih k hk x hx
      · exact ⟨c, .inr (List.mem_singleton.mp hx)⟩
    rw [visit_eq hs] at hx
    cases n with
    | inst i => exact ⟨.inst i, .inl (List.mem_singleton.mp hx)⟩
    | host h => exact hbody rfl hx
    | group g => exact hbody rfl hx

/-- What is open where a node is written is all that is around the node. -/
theorem above_eq (hs : s.Sound) (n : Node) : ∀ x ∈ located (s.ancestors n) (visit s n), ∀ m,
    x.1.node? = some m → x.2 = s.ancestors m := by
  induction n using hs.inside_induction with
  | h n ih =>
    intro x hx m hm
    by_cases hn : ∃ i, n = .inst i
    · obtain ⟨i, rfl⟩ := hn
      rw [visit_eq hs] at hx
      rw [List.mem_singleton.mp hx] at hm ⊢
      cases hm
      rfl
    rw [located_cluster hs (fun i h => hn ⟨i, h⟩)] at hx
    rcases List.mem_cons.mp hx with rfl | hx
    · cases hm; rfl
    rcases List.mem_append.mp hx with hx | hx
    · obtain ⟨k, hk, hx⟩ := List.mem_flatMap.mp hx
      rw [← Session.ancestors_of_outer hs.coherent hs.grounded
        ((Session.mem_inside_iff hs.coherent).mp hk)] at hx
      exact ih k hk x hx m hm
    · rw [List.mem_singleton.mp hx] at hm
      cases hm

/-! ### A system -/

/-- The nodes of a drawing are those below its outermost nodes. -/
theorem nodes_statements (s : Session) (sys : System) :
    (statements s sys).filterMap Statement.node? = sys.nodes.flatMap (below s) := by
  rw [statements, List.filterMap_append, List.filterMap_flatMap]
  have hedges : (sys.links.map Statement.edge).filterMap Statement.node? = [] := by
    simp [Statement.node?]
  rw [hedges, List.append_nil]
  rfl

/-- A registered node that is around `m`, or `m` itself, is the outermost one. -/
theorem eq_outermost_of_below (hs : s.Sound) (hsys : sys.Rooted s) {r m : Node}
    (hr : r ∈ sys.nodes) (hm : m ∈ below s r) : r = s.outermost m :=
  hs.eq_outermost_iff.mpr ⟨(mem_below hs).mp hm, (hsys.root r hr).2⟩

theorem mem_nodes_iff (hs : s.Sound) (hsys : sys.Rooted s) {m : Node} :
    m ∈ sys.nodes.flatMap (below s) ↔ s.outermost m ∈ sys.nodes := by
  rw [List.mem_flatMap]
  constructor
  · rintro ⟨r, hr, hm⟩
    rw [← eq_outermost_of_below hs hsys hr hm]
    exact hr
  · intro hm
    exact ⟨s.outermost m, hm, (mem_below hs).mpr (hs.eq_outermost_iff.mp rfl).1⟩

theorem nodup_nodes (hs : s.Sound) (hsys : sys.Rooted s) :
    (sys.nodes.flatMap (below s)).Nodup := by
  rw [List.nodup_flatMap]
  refine ⟨fun r _ => nodup_below hs r, hsys.nodes_nodup.pairwise_of_forall_ne ?_⟩
  intro r hr r' hr' hne m hm hm'
  rw [eq_outermost_of_below hs hsys hr hm, eq_outermost_of_below hs hsys hr' hm'] at hne
  exact hne rfl

/-- Where the outermost container of a node is drawn, the node is one of the session. -/
theorem hasNode_of_outermost (hs : s.Sound) (hsys : sys.Rooted s) {m : Node}
    (hm : s.outermost m ∈ sys.nodes) : s.HasNode m := by
  cases ho : s.outer? m with
  | some o => exact Session.hasNode_of_outer ho
  | none =>
    have hself : m = s.outermost m := hs.eq_outermost_iff.mpr ⟨List.mem_cons_self .., ho⟩
    rw [hself]
    exact (hsys.root _ hm).1

theorem node?_ofNode (n : Node) : (Statement.ofNode n).node? = some n := by cases n <;> rfl

/-- Whatever writes a node is the statement of that node. -/
theorem eq_ofNode (hs : s.Sound) {x : Statement} (hx : x ∈ statements s sys) {n : Node}
    (hn : x.node? = some n) : x = .ofNode n := by
  rcases List.mem_append.mp hx with hx | hx
  · obtain ⟨r, -, hx⟩ := List.mem_flatMap.mp hx
    obtain ⟨m, rfl | rfl⟩ := mem_visit hs r x hx
    · rw [node?_ofNode] at hn
      cases hn
      rfl
    · cases hn
  · obtain ⟨l, -, rfl⟩ := List.mem_map.mp hx
    cases hn

/-- The edges of a drawing are the links of the system. -/
theorem mem_links_of_edge (hs : s.Sound) {l : LinkKey} (hl : .edge l ∈ statements s sys) :
    l ∈ sys.links := by
  rcases List.mem_append.mp hl with hl | hl
  · obtain ⟨r, -, hl⟩ := List.mem_flatMap.mp hl
    obtain ⟨m, hm | hm⟩ := mem_visit hs r _ hl
    · cases m <;> cases hm
    · cases hm
  · obtain ⟨k, hk, hkl⟩ := List.mem_map.mp hl
    cases hkl
    exact hk

/-- A node is written once or not at all. -/
theorem count_statements (hs : s.Sound) (hsys : sys.Rooted s) (n : Node) :
    (statements s sys).count (.ofNode n) =
      if s.HasNode n ∧ s.outermost n ∈ sys.nodes then 1 else 0 := by
  have hcount : (statements s sys).count (.ofNode n) = (sys.nodes.flatMap (below s)).count n := by
    rw [← nodes_statements, List.count_filterMap, List.count]
    refine List.countP_congr fun x hx => ?_
    rw [beq_iff_eq, beq_iff_eq]
    constructor
    · rintro rfl; exact node?_ofNode n
    · exact eq_ofNode hs hx
  rw [hcount]
  refine Session.count_eq_ite (nodup_nodes hs hsys) ?_
  rw [mem_nodes_iff hs hsys]
  exact ⟨fun h => ⟨hasNode_of_outermost hs hsys h, h⟩, And.right⟩

theorem located_edges (ls : List LinkKey) (above : List Node) :
    located above (ls.map .edge) = ls.map fun l => (.edge l, above) := by
  induction ls with
  | nil => rfl
  | cons l ls ih => rw [List.map_cons, located, ih, List.map_cons]

/-- Between outermost nodes, and after them, nothing is open. -/
theorem located_system (s : Session) (sys : System) : located [] (statements s sys) =
    sys.nodes.flatMap (fun r => located [] (visit s r)) ++ sys.links.map fun l => (.edge l, []) := by
  rw [statements, located_flatMap, located_edges]

/-- What is open where a node of a drawing is written is all that is around the node. -/
theorem above_eq_ancestors (hs : s.Sound) (hsys : sys.Rooted s) {n : Node} {above : List Node}
    (h : (Statement.ofNode n, above) ∈ located [] (statements s sys)) : above = s.ancestors n := by
  rw [located_system] at h
  rcases List.mem_append.mp h with h | h
  · obtain ⟨r, hr, h⟩ := List.mem_flatMap.mp h
    rw [← Session.ancestors_of_outermost hs.coherent (hsys.root r hr).2] at h
    exact above_eq hs r _ h n (node?_ofNode n)
  · obtain ⟨l, -, hl⟩ := List.mem_map.mp h
    cases n <;> cases hl

theorem mem_statements_iff (hs : s.Sound) (hsys : sys.Rooted s) {n : Node} :
    .ofNode n ∈ statements s sys ↔ s.HasNode n ∧ s.outermost n ∈ sys.nodes := by
  rw [← List.count_pos_iff, count_statements hs hsys]
  by_cases h : s.HasNode n ∧ s.outermost n ∈ sys.nodes
  · simp [h]
  · simp [h]

/-- An edge of a drawing has both its ends written. -/
theorem ends_written (hs : s.Sound) (hsys : sys.Rooted s) {l : LinkKey} (hl : l ∈ sys.links) :
    ∃ link, s.link? l = some link ∧ .leaf (Edge.ofLink s link).tail ∈ statements s sys ∧
      .leaf (Edge.ofLink s link).head ∈ statements s sys := by
  obtain ⟨link, hlink, hsource, htarget⟩ := hsys.ends l hl
  have hs' : .leaf link.source ∈ statements s sys :=
    (mem_statements_iff hs hsys (n := .inst link.source)).mpr ⟨hs.linked.source hlink, hsource⟩
  have ht' : .leaf link.target ∈ statements s sys :=
    (mem_statements_iff hs hsys (n := .inst link.target)).mpr ⟨hs.linked.target hlink, htarget⟩
  refine ⟨link, hlink, ?_⟩
  rw [Edge.ofLink]
  by_cases h : Edge.turns s link
  · simp only [if_pos h]; exact ⟨ht', hs'⟩
  · simp only [if_neg h]; exact ⟨hs', ht'⟩

/-- The body of a drawing is the text of its statements. -/
theorem body_eq (hs : s.Sound) (hsys : sys.Rooted s) :
    body s sys = writeLocated s (located [] (statements s sys)) := by
  have hblank : " " = indent 0 := rfl
  have hnodes : writeAll s (indent 0) (sys.nodes.map (block s)) =
      writeLocated s (sys.nodes.flatMap fun r => located [] (visit s r)) :=
    writeAll_map fun r hr => write_block hs r (hsys.root r hr).1 []
  rw [body, hblank, hnodes, located_system, writeLocated_append]
  congr 1
  rw [writeLocated, List.map_map]
  exact congrArg String.join (List.map_congr_left fun l _ => write_edge l 0)

/-- The body of a drawing follows three lines of attributes, and is made of the trees of its outermost
    nodes, in order of registration, and then its links, with nothing open around them. Each tree is
    written outside in. A node whose outermost container is registered is written once, inside its
    containers and one blank further in for each of them; no other node is written, and an edge runs
    between instances that are. -/
theorem body_draws_forest {s : Session} {sys : System} (hs : s.Built) (hsys : sys.Made s) :
    render s sys = "digraph \x7b\n" ++ titleLine s.theme.palette sys.name ++
      nodesLine s.theme.palette ++ edgesLine s.theme.palette ++ body s sys ++ "\x7d" ∧
    body s sys = writeLocated s (located [] (statements s sys)) ∧
    located [] (statements s sys) =
      sys.nodes.flatMap (fun r => located [] (visit s r)) ++ sys.links.map (fun l => (.edge l, [])) ∧
    (∀ n, visit s n = match n with
      | .inst i => [.leaf i]
      | .host h => .enter n :: ((s.residents h).map .leaf ++ [.leave n])
      | .group g => .enter n :: ((s.children g).flatMap (visit s) ++ [.leave n])) ∧
    (∀ n, (statements s sys).count (.ofNode n) =
      if s.HasNode n ∧ s.outermost n ∈ sys.nodes then 1 else 0) ∧
    (∀ x ∈ statements s sys, ∀ n, x.node? = some n → x = .ofNode n) ∧
    (∀ n above, (.ofNode n, above) ∈ located [] (statements s sys) → above = s.ancestors n) ∧
    (∀ l, .edge l ∈ statements s sys → l ∈ sys.links ∧ ∃ link, s.link? l = some link ∧
      .leaf (Edge.ofLink s link).tail ∈ statements s sys ∧
      .leaf (Edge.ofLink s link).head ∈ statements s sys) := by
  have hsound := hs.sound
  have hrooted := hsys.rooted hsound
  refine ⟨?_, body_eq hsound hrooted, located_system s sys, ?_, count_statements hsound hrooted,
    ?_, ?_, ?_⟩
  · rw [render, line_digraph, graphLine_eq, nodeDefaults_eq, edgeDefaults_eq, closing]
  · intro n
    have hleaf : ∀ i, visit s (.inst i) = [.leaf i] := fun i => visit_eq hsound (.inst i)
    rw [visit_eq hsound]
    cases n with
    | inst i => rfl
    | host h =>
      simp only [Session.inside, List.flatMap_map, hleaf]
      rw [← List.map_eq_flatMap]
    | group g => rfl
  · intro x hx n hn
    exact eq_ofNode hsound hx hn
  · intro n above h
    exact above_eq_ancestors hsound hrooted h
  · intro l hl
    have hmem := mem_links_of_edge hsound hl
    exact ⟨hmem, ends_written hsound hrooted hmem⟩

/-- In a drawing of the links of `nested`, the host and both its instances are inside two groups, and
    the third instance is by itself. -/
theorem nested_drawn :
    let s := Session.nested
    let sys : System := System.is ⟨⟨"system", 1⟩, "all", [], [], none⟩ s [⟨0⟩]
    s.Built ∧ sys.Made s ∧
    body s sys =
      " subgraph cluster_group_100 \x7b\n" ++
      "  graph [ label=\"outer\", style=dashed, color=lightcyan4, fontcolor=lightcyan3 ];\n" ++
      "  subgraph cluster_group_101 \x7b\n" ++
      "   graph [ label=\"\", color=invis ];\n" ++
      "   subgraph cluster_host_102 \x7b\n" ++
      "    graph [ tooltip = \" \", style=solid, label=\"\", penwidth = 2, color = lightcyan4" ++
        ", fillcolor=darkslategray  ];\n" ++
      "    instance_103 [ label = <<TABLE BORDER=\"0\"><TR><TD>api</TD></TR></TABLE>> ];\n" ++
      "    instance_104 [ label = <<TABLE BORDER=\"0\"><TR><TD>db</TD></TR></TABLE>> ];\n" ++
      "   \x7d\n" ++
      "  \x7d\n" ++
      " \x7d\n" ++
      " instance_105 [ label = <<TABLE BORDER=\"0\"><TR><TD>cache</TD></TR></TABLE>> ];\n" ++
      " instance_103 -> instance_105 [ dir = both ];\n" ++
      " instance_104 -> instance_105 [ dir = back ];\n" ∧
    (statements s sys).count (.leaf ⟨1⟩) = 1 ∧ (statements s sys).count (.enter (.host ⟨0⟩)) = 1 := by
  intro s sys
  have hmade : sys.Made s := .is [⟨0⟩] (.new _ _) (by decide)
  obtain ⟨-, hbody, -, -, hcount, -⟩ := body_draws_forest Session.nested_built hmade
  refine ⟨Session.nested_built, hmade, hbody.trans (by decide +kernel), ?_, ?_⟩
  · exact (hcount (.inst ⟨1⟩)).trans (if_pos (by decide))
  · exact (hcount (.host ⟨0⟩)).trans (if_pos (by decide))

end Schematic.Dot
