import Schematic.Proofs.Hosting

/-! Putting a node into a group, from one end to the other. What moves is the node itself, or the host of
    an instance that is on one. It comes last in the group and leaves its old one; it takes along all that
    is inside it, and no other node comes to be elsewhere. A placement that is refused changes nothing, and
    it is refused just where it would put a node inside itself. -/

namespace Schematic.Session

/-- In groups, `m` is there for `n`: the host for an instance that is on one, any other node for itself. -/
def RepresentedBy (s : Session) (n m : Node) : Prop :=
  (∃ i h, n = .inst i ∧ s.hostOf? i = some h ∧ m = .host h) ∨
    ((∀ i, n = .inst i → s.hostOf? i = none) ∧ m = n)

/-- `m` is the group `g`, or a group around it. -/
def Holds (s : Session) (m : Node) (g : GroupKey) : Prop :=
  ∃ k, m = .group k ∧ (k = g ∨ .group k ∈ s.ancestors (.group g))

/-- From some node the way outwards leads back to it. -/
def Circular (s : Session) : Prop := ∃ n, Relation.TransGen (fun a b => s.outer? a = some b) n n

/-- `t` is `s` after `m` was put into group `g`, where it was not. -/
structure Grouped (s t : Session) (m : Node) (g : GroupKey) : Prop where
  group : t.groupOf? m = some g
  last : t.children g = s.children g ++ [m]
  previous : ∀ k, s.groupOf? m = some k → Replaces (s.children k) m [] (t.children k)
  other_children : ∀ k, k ≠ g → s.groupOf? m ≠ some k → t.children k = s.children k
  other_groups : ∀ n, n ≠ m → t.groupOf? n = s.groupOf? n
  hosts : ∀ i, t.hostOf? i = s.hostOf? i
  residents : ∀ h, t.residents h = s.residents h
  theme : t.theme = s.theme
  links : t.links = s.links
  chains : t.chains = s.chains
  counter : t.counter = s.counter
  identOf? : ∀ n, t.identOf? n = s.identOf? n
  /-- Nothing at all is written anew for a node that is neither moved nor one of the two groups. -/
  record? : ∀ n, n ≠ m → n ≠ .group g → (∀ k, s.groupOf? m = some k → n ≠ .group k) →
    t.record? n = s.record? n
  ancestors_moved : t.ancestors m = .group g :: s.ancestors (.group g)
  /-- What is inside is still inside all that it was in up to `m`. -/
  ancestors_inside : ∀ n, m ∈ s.ancestors n → ∃ before, m ∉ before ∧
    s.ancestors n = before ++ m :: s.ancestors m ∧
    t.ancestors n = before ++ m :: .group g :: s.ancestors (.group g)
  ancestors_outside : ∀ n, n ≠ m → m ∉ s.ancestors n → t.ancestors n = s.ancestors n

variable {s t : Session} {m n : Node} {g : GroupKey}

theorem representedBy_iff : s.RepresentedBy n m ↔ m = s.standIn n := by
  constructor
  · rintro (⟨i, h, rfl, hi, rfl⟩ | ⟨hn, rfl⟩)
    · rw [standIn, hi]
    · cases m with
      | inst i => rw [standIn, hn i rfl]
      | host h => rfl
      | group g => rfl
  · rintro rfl
    cases n with
    | inst i =>
      cases hi : s.hostOf? i with
      | none => exact .inr ⟨by rintro _ ⟨⟩; exact hi, by rw [standIn, hi]⟩
      | some h => exact .inl ⟨i, h, rfl, hi, by rw [standIn, hi]⟩
    | host h => exact .inr ⟨by rintro _ ⟨⟩, rfl⟩
    | group g => exact .inr ⟨by rintro _ ⟨⟩, rfl⟩

theorem holds_iff : s.Holds m g ↔ s.encloses m g = true := by
  cases m with
  | inst i => simp [Holds, encloses]
  | host h => simp [Holds, encloses]
  | group k => simp [Holds, encloses]

/-! ### The way outwards -/

theorem Moved.outer?_of_ne (h : Moved s t m g) (hm : ∀ i, m = .inst i → s.hostOf? i = none) (x : Node)
    (hx : x ≠ m) : t.outer? x = s.outer? x := by
  rw [h.outer? hm, if_neg hx]

section Moved

variable (h : Moved s t m g) (hs : s.Coherent) (hgr : s.Grounded)
  (hm : ∀ i, m = .inst i → s.hostOf? i = none) (hself : s.encloses m g = false)
include h hs hgr hm hself

/-- The group keeps its ancestors, since what moves is not around it. -/
theorem Moved.climb_group : Climb t.outer? m (.group g :: s.ancestors (.group g)) := by
  have hclimb := climb_ancestors hs hgr (.group g)
  have hfree := not_mem_of_encloses hs hclimb hself
  refine ⟨by rw [h.outer? hm, if_pos rfl], hclimb.congr fun n hn => h.outer?_of_ne hm n ?_⟩
  rintro rfl
  exact hfree hn

theorem Moved.ancestors_inside (hn : m ∈ s.ancestors n) : ∃ before, m ∉ before ∧
    s.ancestors n = before ++ m :: s.ancestors m ∧
    t.ancestors n = before ++ m :: .group g :: s.ancestors (.group g) := by
  have hclimb := climb_ancestors hs hgr n
  obtain ⟨before, after, hpath⟩ := List.append_of_mem hn
  rw [hpath] at hclimb
  have hafter : s.ancestors m = after := ancestors_eq hs hclimb.rest
  have hne : n ≠ m := by
    rintro rfl
    exact hclimb.not_mem (by simp)
  have hbefore : m ∉ before := by
    have hnodup := (List.nodup_cons.mp hclimb.nodup).2
    exact fun hmem => (List.nodup_middle.mp hnodup).notMem (List.mem_append_left _ hmem)
  refine ⟨before, hbefore, by rw [hpath, hafter], ancestors_eq (h.coherent hs hm) ?_⟩
  exact Climb.splice (h.outer?_of_ne hm) (h.climb_group hs hgr hm hself) hclimb hne

omit hself in
theorem Moved.ancestors_outside (hne : n ≠ m) (hn : m ∉ s.ancestors n) :
    t.ancestors n = s.ancestors n := by
  refine ancestors_eq (h.coherent hs hm) ((climb_ancestors hs hgr n).congr fun x hx =>
    h.outer?_of_ne hm x ?_)
  rintro rfl
  rcases List.mem_cons.mp hx with rfl | hx
  · exact hne rfl
  · exact hn hx

end Moved

/-- Where every way outwards has an end, no node is inside itself. -/
theorem Grounded.not_circular (hs : s.Grounded) : ¬ s.Circular := by
  rintro ⟨n, hn⟩
  obtain ⟨path, hpath⟩ := hs n
  exact hpath.not_reaches_self hn

/-- A group that is put into one inside it, or into itself, comes to be inside itself. -/
theorem Moved.circular (h : Moved s t m g) (hgr : s.Grounded)
    (hm : ∀ i, m = .inst i → s.hostOf? i = none) (hs : s.Coherent) (hself : s.Holds m g) :
    t.Circular := by
  have hstep : t.outer? m = some (.group g) := by rw [h.outer? hm, if_pos rfl]
  have hup : m ∈ .group g :: s.ancestors (.group g) := by
    obtain ⟨k, rfl, rfl | hk⟩ := hself
    · exact List.mem_cons_self ..
    · exact List.mem_cons_of_mem _ hk
  have hback := Climb.reaches_of_eq (h.outer?_of_ne hm) (climb_ancestors hs hgr (.group g)) hup
  exact ⟨m, Relation.TransGen.head' hstep hback⟩

/-! ### Grouping -/

theorem Moved.last (h : Moved s t m g) (hs : s.Coherent) (hne : s.groupOf? m ≠ some g) :
    t.children g = s.children g ++ [m] := by
  have hfree : m ∉ s.children g := fun hm => hne ((hs.child_iff m g).mp hm)
  rw [h.children, filter_of_not_mem hfree, if_pos rfl]

theorem Moved.previous (h : Moved s t m g) (hs : s.Coherent) {k : GroupKey} (hne : k ≠ g)
    (hk : s.groupOf? m = some k) : Replaces (s.children k) m [] (t.children k) := by
  rw [h.children, if_neg hne, List.append_nil]
  exact replaces_filter (hs.children_nodup k) ((hs.child_iff m k).mpr hk)

theorem Moved.other_children (h : Moved s t m g) (hs : s.Coherent) {k : GroupKey} (hne : k ≠ g)
    (hk : s.groupOf? m ≠ some k) : t.children k = s.children k := by
  have hfree : m ∉ s.children k := fun hm => hk ((hs.child_iff m k).mp hm)
  rw [h.children, if_neg hne, List.append_nil, filter_of_not_mem hfree]

/-- A placement that is accepted, and puts a node where it was not. -/
theorem grouped_placeIn (hs : s.Sound) (hn : s.HasNode n) (hg : s.HasGroup g)
    (hm : s.RepresentedBy n m) (hne : s.groupOf? m ≠ some g) (hself : ¬ s.Holds m g) :
    Grouped s (s.placeIn n g) m g := by
  obtain rfl := representedBy_iff.mp hm
  rw [holds_iff, Bool.not_eq_true] at hself
  have hc := hs.coherent
  have hfree : ∀ i, s.standIn n = .inst i → s.hostOf? i = none := fun i => hostOf?_of_standIn
  have hmoved : Moved s (s.placeIn n g) (s.standIn n) g := by
    rcases placeIn_cases hc hn hg with ⟨hthere | henc, -⟩ | ⟨-, -, hmoved⟩
    · exact absurd hthere hne
    · rw [hself] at henc
      cases henc
    · exact hmoved
  have hedits := Edits.placeIn (s := s) n g
  exact
    { group := by rw [hmoved.groupOf, if_pos rfl]
      last := hmoved.last hc hne
      previous := fun k hk => hmoved.previous hc (by rintro rfl; exact hne hk) hk
      other_children := fun k hk hother => hmoved.other_children hc hk hother
      other_groups := fun n hn => by rw [hmoved.groupOf, if_neg hn]
      hosts := hmoved.hostOf
      residents := hmoved.residents
      theme := hedits.theme
      links := hedits.links
      chains := hedits.chains
      counter := hedits.counter
      identOf? := hedits.identOf?
      record? := fun x hx hxg hxk => hedits.record? x (by
        rintro (rfl | rfl | ⟨k, hk, rfl⟩)
        · exact hx rfl
        · exact hxg rfl
        · exact hxk k hk rfl)
      ancestors_moved := ancestors_eq (hmoved.coherent hc hfree)
        (hmoved.climb_group hc hs.grounded hfree hself)
      ancestors_inside := fun x hx => hmoved.ancestors_inside hc hs.grounded hfree hself hx
      ancestors_outside := fun x hx hx' => hmoved.ancestors_outside hc hs.grounded hfree hx hx' }

/-- A placement is refused just when it would put a node inside itself. -/
theorem refused_iff_circular (hs : s.Sound) (hn : s.HasNode n) (hg : s.HasGroup g)
    (hm : s.RepresentedBy n m) (hne : s.groupOf? m ≠ some g) :
    s.placeIn n g = s ↔ ((s.leaveGroup m).enterGroup m g).Circular := by
  obtain rfl := representedBy_iff.mp hm
  have hc := hs.coherent
  have hfree : ∀ i, s.standIn n = .inst i → s.hostOf? i = none := fun i => hostOf?_of_standIn
  have hmoved := moved_leave_enter hc (hasNode_standIn hc hn) hg
  cases hself : s.encloses (s.standIn n) g with
  | true =>
    have hsame : s.placeIn n g = s := by
      rw [placeIn, if_neg hne, if_pos hself]
    exact iff_of_true hsame (hmoved.circular hs.grounded hfree hc (holds_iff.mpr hself))
  | false =>
    refine iff_of_false ?_ (hmoved.grounded hc hs.grounded hfree hself).not_circular
    intro hsame
    have hgroup := groupOf?_placeIn hc hn hg (s.standIn n)
    rw [if_pos ⟨rfl, hself⟩, hsame] at hgroup
    exact hne hgroup

/-- Putting a node into a group. What moves is the node that is there for it in groups. If that is in the
    group already, or is the group or around it, nothing changes. Otherwise it comes last in the group,
    its old group loses it, and it takes along what is inside it; and no other list, node, link or ident
    changes. It is refused just when some node would be inside itself if it were not. -/
theorem placeIn_groups {s : Session} (hs : s.Built) {n m : Node} {g : GroupKey} (hn : s.HasNode n)
    (hg : s.HasGroup g) (hm : s.RepresentedBy n m) :
    (s.groupOf? m = some g → s.placeIn n g = s) ∧
    (s.Holds m g → s.placeIn n g = s) ∧
    (s.groupOf? m ≠ some g → ¬ s.Holds m g → Grouped s (s.placeIn n g) m g) ∧
    (s.groupOf? m ≠ some g → Moved s ((s.leaveGroup m).enterGroup m g) m g ∧
      (s.placeIn n g = s ↔ ((s.leaveGroup m).enterGroup m g).Circular)) := by
  have hsound := hs.sound
  have hstand := representedBy_iff.mp hm
  refine ⟨fun hthere => ?_, fun hself => ?_, grouped_placeIn hsound hn hg hm, fun hne => ?_⟩
  · rw [placeIn, ← hstand, if_pos hthere]
  · rw [placeIn, ← hstand]
    split
    · rfl
    · exact if_pos (holds_iff.mp hself)
  · have hnode : s.HasNode m := hstand ▸ hasNode_standIn hsound.coherent hn
    exact ⟨moved_leave_enter hsound.coherent hnode hg, refused_iff_circular hsound hn hg hm hne⟩

/-- In `nested` an instance takes its host, and with it the other instance there, from the inner group to
    the outer one; and the outer group does not go into the inner one. -/
theorem nested_groups : nested.Built ∧
    (let t := nested.placeIn (.inst ⟨0⟩) ⟨0⟩
    t.children ⟨0⟩ = [.group ⟨1⟩, .host ⟨0⟩] ∧ Replaces [.host ⟨0⟩] (.host ⟨0⟩) [] (t.children ⟨1⟩) ∧
      t.ancestors (.inst ⟨1⟩) = [.host ⟨0⟩, .group ⟨0⟩]) ∧
    nested.placeIn (.group ⟨0⟩) ⟨1⟩ = nested := by
  obtain ⟨-, -, hmove, -⟩ := placeIn_groups nested_built (n := .inst ⟨0⟩) (m := .host ⟨0⟩) (g := ⟨0⟩)
    (by decide) (by decide) (.inl ⟨⟨0⟩, ⟨0⟩, rfl, by decide, rfl⟩)
  have hfree : ¬ nested.Holds (.host ⟨0⟩) ⟨0⟩ := by rintro ⟨_, ⟨⟩, _⟩
  have h := hmove (by decide) hfree
  obtain ⟨before, -, hbefore, hinside⟩ := h.ancestors_inside (.inst ⟨1⟩) (by decide)
  obtain ⟨-, hrefuse, -⟩ := placeIn_groups nested_built (n := .group ⟨0⟩) (m := .group ⟨0⟩) (g := ⟨1⟩)
    (by decide) (by decide) (.inr ⟨by rintro _ ⟨⟩, rfl⟩)
  refine ⟨nested_built, ⟨h.last, h.previous ⟨1⟩ (by decide), ?_⟩,
    hrefuse ⟨⟨0⟩, rfl, .inr (by decide)⟩⟩
  have hnil : before = [] := by
    have hold : nested.ancestors (.inst ⟨1⟩) = [] ++ .host ⟨0⟩ :: nested.ancestors (.host ⟨0⟩) := by
      decide
    exact List.append_cancel_right (hbefore.symm.trans hold)
  rw [hinside, hnil]
  decide

end Schematic.Session
