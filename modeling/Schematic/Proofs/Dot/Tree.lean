import Schematic.Proofs.Dot.Lines
import Schematic.Proofs.Session.Inside

/-! The text of a node as a list of statements. A cluster is opened, everything inside is visited, and
    the cluster is closed; what is open when a statement is written is just what is around it, and
    with every open cluster the line moves in by one blank. -/

namespace Schematic.Dot

/-- A piece of the body of a drawing. -/
inductive Statement where
  | leaf (i : InstanceKey)
  | enter (n : Node)
  | leave (n : Node)
  | edge (l : LinkKey)
  deriving DecidableEq

namespace Statement

/-- The statement that writes a node: an instance as itself, anything else as a cluster. -/
def ofNode : Node → Statement
  | .inst i => .leaf i
  | n => .enter n

/-- The node that the statement writes. -/
def node? : Statement → Option Node
  | .leaf i => some (.inst i)
  | .enter n => some n
  | .leave _ => none
  | .edge _ => none

end Statement

mutual

/-- The statements of a block: a cluster is opened before what is inside and closed after it. -/
def Block.statements : Block → List Statement
  | .leaf i => [.leaf i]
  | .cluster n body => .enter n :: (allStatements body ++ [.leave n])

/-- The statements of blocks, one after the other. -/
def allStatements : List Block → List Statement
  | [] => []
  | b :: bs => b.statements ++ allStatements bs

end

/-- The statements of a node with everything inside it. -/
def visit (s : Session) (n : Node) : List Statement := (block s n).statements

/-- The statements of a system: its outermost nodes, then its links. -/
def statements (s : Session) (sys : System) : List Statement :=
  sys.nodes.flatMap (visit s) ++ sys.links.map .edge

/-- Each statement with the clusters that are open around it, innermost first. -/
def located : List Node → List Statement → List (Statement × List Node)
  | _, [] => []
  | above, .enter n :: rest => (.enter n, above) :: located (n :: above) rest
  | above, .leave n :: rest => (.leave n, above.tail) :: located above.tail rest
  | above, .leaf i :: rest => (.leaf i, above) :: located above rest
  | above, .edge l :: rest => (.edge l, above) :: located above rest

/-- The text of a statement with so many clusters around it. -/
def Statement.write (s : Session) (depth : Nat) : Statement → String
  | .leaf i =>
    match s.instance? i with
    | none => ""
    | some inst => nodeLine s.theme.palette (indent depth) inst
  | .enter (.inst _) => ""
  | .enter (.host h) =>
    match s.host? h with
    | none => ""
    | some host => hostLines s.theme.palette (indent depth) host
  | .enter (.group g) =>
    match s.group? g with
    | none => ""
    | some group => groupLines s.theme.palette (indent depth) group
  | .leave _ => indent depth ++ "\x7d\n"
  | .edge l =>
    match s.link? l with
    | none => ""
    | some link => linkLine s (indent depth) link

/-- The text of located statements. -/
def writeLocated (s : Session) (ls : List (Statement × List Node)) : String :=
  String.join (ls.map fun l => l.1.write s l.2.length)

variable {s : Session}

/-! ### Blocks without a bound -/

/-- Two bounds that reach past the deepest group give the same block. -/
theorem blockUpTo_eq (hs : s.Sound) : ∀ {d d' : Nat} {n : Node},
    s.groups.size ≤ d + (s.ancestors n).length → s.groups.size ≤ d' + (s.ancestors n).length →
    blockUpTo s d n = blockUpTo s d' n
  | _, _, .inst i, _, _ => by simp [blockUpTo]
  | _, _, .host h, _, _ => by simp [blockUpTo]
  | d, d', .group g, hd, hd' => by
    by_cases hg : s.HasGroup g
    · have hlen := hs.length_ancestors_group hg
      obtain ⟨d, rfl⟩ : ∃ k, d = k + 1 := ⟨d - 1, by omega⟩
      obtain ⟨d', rfl⟩ : ∃ k, d' = k + 1 := ⟨d' - 1, by omega⟩
      rw [blockUpTo, blockUpTo]
      congr 1
      refine List.map_congr_left fun m hm => ?_
      have hup := hs.length_ancestors ((Session.mem_inside_iff hs.coherent (n := .group g)).mp hm)
      exact blockUpTo_eq hs (by omega) (by omega)
    · have hnone : s.children g = [] :=
        List.eq_nil_iff_forall_not_mem.mpr fun m hm => hg (Session.hasGroup_of_child hm)
      cases d <;> cases d' <;> simp [blockUpTo, hnone]

/-- The block of a container holds the blocks of what is directly inside, as deep as it goes. -/
theorem block_eq (hs : s.Sound) (n : Node) :
    block s n = match n with
      | .inst i => .leaf i
      | n => .cluster n ((s.inside n).map (block s)) := by
  cases n with
  | inst i => simp [block, blockUpTo]
  | host h =>
    have hleaf : ∀ i, block s (.inst i) = .leaf i := fun i => by simp [block, blockUpTo]
    simp [block, blockUpTo, Session.inside, Function.comp_def]
  | group g =>
    have hblock : block s (.group g) = blockUpTo s (s.groups.size + 1) (.group g) :=
      blockUpTo_eq hs (by omega) (by omega)
    simp only [hblock, blockUpTo]
    rfl

theorem allStatements_map {α : Type} (f : α → Block) (xs : List α) :
    allStatements (xs.map f) = xs.flatMap fun x => (f x).statements := by
  induction xs with
  | nil => rfl
  | cons x xs ih => rw [List.map_cons, allStatements, ih, List.flatMap_cons]

/-- A visit opens a container, visits what is directly inside in order, and closes it. -/
theorem visit_eq (hs : s.Sound) (n : Node) :
    visit s n = match n with
      | .inst i => [.leaf i]
      | n => .enter n :: ((s.inside n).flatMap (visit s) ++ [.leave n]) := by
  rw [visit, block_eq hs]
  cases n with
  | inst i => rfl
  | host h => simp only [Block.statements, allStatements_map]; rfl
  | group g => simp only [Block.statements, allStatements_map]; rfl

/-! ### What is open -/

mutual

/-- A block closes all that it opens. -/
theorem located_statements : ∀ (b : Block) (above : List Node) (rest : List Statement),
    located above (b.statements ++ rest) = located above b.statements ++ located above rest
  | .leaf i, above, rest => rfl
  | .cluster n body, above, rest => by
    simp only [Block.statements, List.cons_append, List.append_assoc, List.nil_append, located]
    rw [located_allStatements body, located_allStatements body (n :: above) [.leave n]]
    simp [located]

theorem located_allStatements : ∀ (bs : List Block) (above : List Node) (rest : List Statement),
    located above (allStatements bs ++ rest) = located above (allStatements bs) ++ located above rest
  | [], _, _ => rfl
  | b :: bs, above, rest => by
    rw [allStatements, List.append_assoc, located_statements b, located_allStatements bs,
      located_statements b above (allStatements bs), List.append_assoc]

end

theorem located_visit (n : Node) (above : List Node) (rest : List Statement) :
    located above (visit s n ++ rest) = located above (visit s n) ++ located above rest :=
  located_statements (block s n) above rest

theorem located_flatMap (ns : List Node) (above : List Node) (rest : List Statement) :
    located above (ns.flatMap (visit s) ++ rest) =
      ns.flatMap (fun n => located above (visit s n)) ++ located above rest := by
  induction ns with
  | nil => rfl
  | cons n ns ih =>
    rw [List.flatMap_cons, List.append_assoc, located_visit, ih, List.flatMap_cons,
      List.append_assoc]

/-- What is open around a container and inside it. -/
theorem located_cluster (hs : s.Sound) {n : Node} (hn : ∀ i, n ≠ .inst i) (above : List Node) :
    located above (visit s n) = (.enter n, above) ::
      ((s.inside n).flatMap (fun m => located (n :: above) (visit s m)) ++ [(.leave n, above)]) := by
  rw [visit_eq hs]
  cases n with
  | inst i => exact absurd rfl (hn i)
  | host h => simp only [located, located_flatMap]; rfl
  | group g => simp only [located, located_flatMap]; rfl

/-! ### The text -/

theorem indent_succ (depth : Nat) : indent depth ++ " " = indent (depth + 1) := by
  have hblank : " " = String.ofList [' '] := rfl
  rw [indent, indent, hblank, ← String.ofList_append, ← List.replicate_succ']

theorem join_append (xs ys : List String) : String.join (xs ++ ys) = String.join xs ++ String.join ys := by
  induction xs with
  | nil => simp
  | cons x xs ih => simp [ih, String.append_assoc]

theorem writeLocated_append (xs ys : List (Statement × List Node)) :
    writeLocated s (xs ++ ys) = writeLocated s xs ++ writeLocated s ys := by
  rw [writeLocated, List.map_append, join_append]
  rfl

theorem writeLocated_cons (x : Statement × List Node) (xs : List (Statement × List Node)) :
    writeLocated s (x :: xs) = x.1.write s x.2.length ++ writeLocated s xs := by
  simp [writeLocated]

theorem writeAll_map {α : Type} {f : α → Block} {g : α → List (Statement × List Node)} {pad : String} :
    ∀ {xs : List α}, (∀ x ∈ xs, (f x).write s pad = writeLocated s (g x)) →
      writeAll s pad (xs.map f) = writeLocated s (xs.flatMap g)
  | [], _ => by simp [writeAll, writeLocated]
  | x :: xs, h => by
    rw [List.map_cons, writeAll, h x (List.mem_cons_self ..), List.flatMap_cons, writeLocated_append,
      writeAll_map fun y hy => h y (List.mem_cons_of_mem _ hy)]

theorem write_leaf (i : InstanceKey) (depth : Nat) :
    writeLeaf s (indent depth) i = Statement.write s depth (.leaf i) := by
  rw [writeLeaf, Statement.write]
  cases s.instance? i with
  | none => rfl
  | some inst => exact line_instanceBody ..

theorem write_edge (l : LinkKey) (depth : Nat) :
    writeLink s (indent depth) l = Statement.write s depth (.edge l) := by
  rw [writeLink, Statement.write]
  cases s.link? l with
  | none => rfl
  | some link => exact line_edgeBody ..

/-- The cluster of a host, from its first statement to its last. -/
theorem write_host {h : HostKey} {host : Host} (hhost : s.host? h = some host) (depth : Nat)
    (inside : String) : writeCluster s (indent depth) inside (.host h) =
      Statement.write s depth (.enter (.host h)) ++ (inside ++ Statement.write s depth (.leave (.host h)))
    := by
  simp only [writeCluster, hhost, Statement.write, cluster_host]

/-- The cluster of a group, from its first statement to its last. -/
theorem write_group {g : GroupKey} {group : Group} (hgroup : s.group? g = some group) (depth : Nat)
    (inside : String) : writeCluster s (indent depth) inside (.group g) =
      Statement.write s depth (.enter (.group g)) ++
        (inside ++ Statement.write s depth (.leave (.group g))) := by
  simp only [writeCluster, hgroup, Statement.write, cluster_group]

/-- The text of a node is that of its statements, each as far in as it has clusters around it. -/
theorem write_block (hs : s.Sound) (n : Node) : s.HasNode n → ∀ above : List Node,
    (block s n).write s (indent above.length) = writeLocated s (located above (visit s n)) := by
  refine hs.inside_induction (p := fun n => s.HasNode n → ∀ above : List Node,
    (block s n).write s (indent above.length) = writeLocated s (located above (visit s n))) ?_ n
  intro n ih hn above
  have hbody : writeAll s (indent above.length ++ " ") ((s.inside n).map (block s)) =
      writeLocated s ((s.inside n).flatMap fun m => located (n :: above) (visit s m)) := by
    refine writeAll_map fun m hm => ?_
    have hin := Session.hasNode_of_outer ((Session.mem_inside_iff hs.coherent).mp hm)
    rw [indent_succ]
    exact ih m hm hin (n :: above)
  have hend : ∀ n, writeLocated s [(.leave n, above)] = Statement.write s above.length (.leave n) :=
    fun n => by rw [writeLocated_cons, writeLocated, List.map_nil, String.join_nil, String.append_empty]
  cases n with
  | inst i =>
    rw [block_eq hs, visit_eq hs]
    simp [Block.write, located, writeLocated, write_leaf]
  | host h =>
    obtain ⟨host, hhost⟩ := Session.hasHost_iff.mp hn
    rw [block_eq hs, located_cluster hs (by simp), writeLocated_cons, writeLocated_append, ← hbody, hend,
      Block.write, write_host hhost]
  | group g =>
    obtain ⟨group, hgroup⟩ := Session.hasGroup_iff.mp hn
    rw [block_eq hs, located_cluster hs (by simp), writeLocated_cons, writeLocated_append, ← hbody, hend,
      Block.write, write_group hgroup]

end Schematic.Dot
