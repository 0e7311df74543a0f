import Schematic.Proofs.Builder
import Schematic.Proofs.Session.Edits

/-! Putting an instance on a host, from one end to the other. The instance comes last on its new host and
    leaves its old one; if it was in a group, the host stands in its place there. All lists keep their
    order, and nothing else moves, save that what is on the host goes where the host goes. -/

namespace Schematic

/-! ### One place in a list -/

/-- `xs` has `x` in one place, where `ys` has `new`; apart from that they are the same. -/
def Replaces {α : Type} (xs : List α) (x : α) (new ys : List α) : Prop :=
  ∃ before after, xs = before ++ x :: after ∧ x ∉ before ++ after ∧ ys = before ++ new ++ after

section Replaces

variable {α : Type} {xs : List α} {x : α}

theorem exists_place (hnodup : xs.Nodup) (hx : x ∈ xs) :
    ∃ before after, xs = before ++ x :: after ∧ x ∉ before ++ after := by
  obtain ⟨before, after, rfl⟩ := List.append_of_mem hx
  exact ⟨before, after, rfl, (List.nodup_middle.mp hnodup).notMem⟩

/-- What is there once can be taken out. -/
theorem replaces_filter [DecidableEq α] (hnodup : xs.Nodup) (hx : x ∈ xs) :
    Replaces xs x [] (xs.filter (· ≠ x)) := by
  obtain ⟨before, after, rfl, hother⟩ := exists_place hnodup hx
  refine ⟨before, after, rfl, hother, ?_⟩
  rw [List.filter_append, List.filter_cons_of_neg (by simp), ← List.filter_append,
    filter_of_not_mem hother, List.append_nil]

/-- What is there once can give its place to something else. -/
theorem replaces_map [DecidableEq α] (hnodup : xs.Nodup) (hx : x ∈ xs) (y : α) :
    Replaces xs x [y] (xs.map fun z => if z = x then y else z) := by
  obtain ⟨before, after, rfl, hother⟩ := exists_place hnodup hx
  refine ⟨before, after, rfl, hother, ?_⟩
  have hkeep : ∀ zs, zs ⊆ before ++ after → zs.map (fun z => if z = x then y else z) = zs := by
    intro zs hzs
    refine (List.map_congr_left fun z hz => if_neg ?_).trans (List.map_id zs)
    rintro rfl
    exact hother (hzs hz)
  rw [List.map_append, List.map_cons, if_pos rfl, hkeep before (List.subset_append_left ..),
    hkeep after (List.subset_append_right ..), List.append_assoc]
  rfl

end Replaces

namespace Session

/-- `t` is `s` after instance `i` was put on host `h`, where it was not. -/
structure Hosted (s t : Session) (i : InstanceKey) (h : HostKey) : Prop where
  host : t.hostOf? i = some h
  last : t.residents h = s.residents h ++ [i]
  previous : ∀ k, s.hostOf? i = some k → Replaces (s.residents k) i [] (t.residents k)
  other_residents : ∀ k, k ≠ h → s.hostOf? i ≠ some k → t.residents k = s.residents k
  group : t.groupOf? (.inst i) = none
  unlisted : ∀ g, .inst i ∉ t.children g
  /-- An instance that was in no group leaves all groups as they were. -/
  ungrouped : s.groupOf? (.inst i) = none →
    (∀ g, t.children g = s.children g) ∧ ∀ n, t.groupOf? n = s.groupOf? n
  /-- A host that is in the group of the instance stays where it is. -/
  joins : ∀ g, s.groupOf? (.inst i) = some g → s.groupOf? (.host h) = some g →
    t.groupOf? (.host h) = some g ∧ Replaces (s.children g) (.inst i) [] (t.children g) ∧
      ∀ k, k ≠ g → t.children k = s.children k
  /-- Any other host leaves its group and takes the place of the instance, which is still there to be
      found. -/
  takes_place : ∀ g, s.groupOf? (.inst i) = some g → s.groupOf? (.host h) ≠ some g →
    t.groupOf? (.host h) = some g ∧
      .inst i ∈ (((s.leaveHost i).setGroup (.inst i) none).leaveGroup (.host h)).children g ∧
      Replaces (s.children g) (.inst i) [.host h] (t.children g) ∧
      (∀ k, s.groupOf? (.host h) = some k → Replaces (s.children k) (.host h) [] (t.children k)) ∧
      ∀ k, k ≠ g → s.groupOf? (.host h) ≠ some k → t.children k = s.children k
  other_groups : ∀ n, n ≠ .inst i → n ≠ .host h → t.groupOf? n = s.groupOf? n
  other_hosts : ∀ j, j ≠ i → t.hostOf? j = s.hostOf? j
  links : t.links = s.links
  chains : t.chains = s.chains
  counter : t.counter = s.counter
  identOf? : ∀ n, t.identOf? n = s.identOf? n
  /-- What is not on the host stays inside what it was in. -/
  ancestors : ∀ n, n ≠ .inst i → n ≠ .host h → (∀ j, n = .inst j → s.hostOf? j ≠ some h) →
    t.ancestors n = s.ancestors n

variable {s t : Session} {i : InstanceKey} {h : HostKey}

/-! ### The way outwards -/

/-- Whatever is neither moved nor on the host is in the container that it was in. -/
theorem Lodged.outer? (hl : Lodged s t i h) {n : Node} (hi : n ≠ .inst i) (hh : n ≠ .host h) :
    t.outer? n = s.outer? n := by
  have hgroup : t.groupOf? n = s.groupOf? n := by rw [hl.groupOf, if_neg hi, if_neg hh]
  cases n with
  | inst j =>
    have hhost : t.hostOf? j = s.hostOf? j := by
      rw [hl.hostOf, if_neg fun hj => hi (congrArg _ hj)]
    simp only [Session.outer?, hhost, hgroup]
  | host k => simp only [Session.outer?, hgroup]
  | group k => simp only [Session.outer?, hgroup]

theorem Lodged.ancestors (hl : Lodged s t i h) (hs : s.Coherent) (hg : s.Grounded) (ht : t.Coherent)
    {n : Node} (hi : n ≠ .inst i) (hh : n ≠ .host h) (hn : ∀ j, n = .inst j → s.hostOf? j ≠ some h) :
    t.ancestors n = s.ancestors n := by
  -- going outwards, only an instance leads to a host, and no instance is ever led to
  have hstep : ∀ {x y}, (∀ j, x = .inst j → s.hostOf? j ≠ some h) → s.outer? x = some y →
      y ≠ .inst i ∧ y ≠ .host h ∧ ∀ j, y = .inst j → s.hostOf? j ≠ some h := by
    intro x y hx hxy
    refine ⟨?_, ?_, ?_⟩
    · rintro rfl
      exact outer?_ne_inst hxy
    · rintro rfl
      obtain ⟨j, rfl, hj⟩ := outer?_eq_host_iff.mp hxy
      exact hx j rfl hj
    · rintro j rfl
      exact absurd hxy outer?_ne_inst
  have hclimb := climb_ancestors hs hg n
  have hapart := hclimb.forall_mem (p := fun x => x ≠ .inst i ∧ x ≠ .host h ∧
    ∀ j, x = .inst j → s.hostOf? j ≠ some h) (fun hx hxy => hstep hx.2.2 hxy) ⟨hi, hh, hn⟩
  refine ancestors_eq ht (hclimb.congr fun x hx => ?_)
  rcases List.mem_cons.mp hx with rfl | hx
  · exact hl.outer? hi hh
  · exact hl.outer? (hapart x hx).1 (hapart x hx).2.1

/-! ### Hosting -/

/-- The instance has not left the list of its group by the time that its place is looked for. -/
theorem place_found (hs : s.Coherent) {g : GroupKey} (hg : s.groupOf? (.inst i) = some g) :
    .inst i ∈ (((s.leaveHost i).setGroup (.inst i) none).leaveGroup (.host h)).children g := by
  have hinst : (s.leaveHost i).HasNode (.inst i) :=
    (hasNode_leaveHost i (.inst i)).mpr (hasNode_of_groupOf hg)
  have hhost : ∀ k, .host h ∈ ((s.leaveHost i).setGroup (.inst i) none).children k →
      ((s.leaveHost i).setGroup (.inst i) none).groupOf? (.host h) = some k := by
    intro k hk
    rw [children_setGroup, children_leaveHost] at hk
    rw [groupOf?_setGroup hinst, if_neg (by simp), groupOf?_leaveHost]
    exact (hs.child_iff _ k).mp hk
  rw [children_leaveGroup hhost, children_setGroup, children_leaveHost, List.mem_filter]
  exact ⟨(hs.child_iff _ g).mpr hg, by simp⟩

section Lists

variable (hl : Lodged s t i h) (hs : s.Coherent)
include hl hs

theorem Lodged.residents_last (hne : s.hostOf? i ≠ some h) : t.residents h = s.residents h ++ [i] := by
  have hfree : i ∉ s.residents h := fun hi => hne ((hs.resident_iff i h).mp hi)
  rw [hl.residents, filter_of_not_mem hfree, if_pos rfl]

theorem Lodged.residents_previous {k : HostKey} (hne : k ≠ h) (hk : s.hostOf? i = some k) :
    Replaces (s.residents k) i [] (t.residents k) := by
  rw [hl.residents, if_neg hne, List.append_nil]
  exact replaces_filter (hs.residents_nodup k) ((hs.resident_iff i k).mpr hk)

theorem Lodged.residents_other {k : HostKey} (hne : k ≠ h) (hk : s.hostOf? i ≠ some k) :
    t.residents k = s.residents k := by
  have hfree : i ∉ s.residents k := fun hi => hk ((hs.resident_iff i k).mp hi)
  rw [hl.residents, if_neg hne, List.append_nil, filter_of_not_mem hfree]

variable {g : GroupKey} (hg : s.groupOf? (.inst i) = some g)
include hg

/-- In its own group the instance gives way to a host that is there. -/
theorem Lodged.children_joined (hh : s.groupOf? (.host h) = some g) :
    Replaces (s.children g) (.inst i) [] (t.children g) ∧ ∀ k, k ≠ g → t.children k = s.children k := by
  have hchildren : ∀ k, t.children k = (s.children k).filter (· ≠ .inst i) := by
    intro k
    simp only [hl.children, hg, handedOver, if_pos hh]
  refine ⟨?_, fun k hk => ?_⟩
  · rw [hchildren]
    exact replaces_filter (hs.children_nodup g) ((hs.child_iff _ g).mpr hg)
  · have hfree : .inst i ∉ s.children k := by
      rw [hs.child_iff, hg, Option.some.injEq]
      exact Ne.symm hk
    rw [hchildren, filter_of_not_mem hfree]

/-- A host from elsewhere leaves its group and comes where the instance was. -/
theorem Lodged.children_taken (hh : s.groupOf? (.host h) ≠ some g) :
    Replaces (s.children g) (.inst i) [.host h] (t.children g) ∧
      (∀ k, s.groupOf? (.host h) = some k → Replaces (s.children k) (.host h) [] (t.children k)) ∧
      ∀ k, k ≠ g → s.groupOf? (.host h) ≠ some k → t.children k = s.children k := by
  have hchildren : ∀ k, k ≠ g → t.children k = (s.children k).filter (· ≠ .host h) := by
    intro k hk
    simp only [hl.children, hg, handedOver, if_neg hh, if_neg hk]
  refine ⟨?_, fun k hk => ?_, fun k hk hother => ?_⟩
  · simp only [hl.children, hg, handedOver, if_neg hh, if_pos]
    exact replaces_map (hs.children_nodup g) ((hs.child_iff _ g).mpr hg) _
  · have hkg : k ≠ g := by
      rintro rfl
      exact hh hk
    rw [hchildren k hkg]
    exact replaces_filter (hs.children_nodup k) ((hs.child_iff _ k).mpr hk)
  · have hfree : .host h ∉ s.children k := fun hm => hother ((hs.child_iff _ k).mp hm)
    rw [hchildren k hk, filter_of_not_mem hfree]

end Lists

theorem hosted_placeOn (hs : s.Sound) (hi : s.HasInstance i) (hh : s.HasHost h)
    (hne : s.hostOf? i ≠ some h) : Hosted s (s.placeOn i h) i h := by
  have hc := hs.coherent
  have hl := lodged_placeOn hc hi hh hne
  have ht := hl.coherent hc
  have hedits := Edits.placeOn (s := s) i h
  have hgroup : (s.placeOn i h).groupOf? (.inst i) = none := by rw [hl.groupOf, if_pos rfl]
  have hplace : ∀ g, s.groupOf? (.inst i) = some g → (s.placeOn i h).groupOf? (.host h) = some g := by
    intro g hg
    rw [hl.groupOf, if_neg (by simp), if_pos rfl, hg, Option.some_or]
  exact
    { host := by rw [hl.hostOf, if_pos rfl]
      last := hl.residents_last hc hne
      previous := fun k hk => hl.residents_previous hc (by rintro rfl; exact hne hk) hk
      other_residents := fun k hk hother => hl.residents_other hc hk hother
      group := hgroup
      unlisted := fun g hg => by
        rw [ht.child_iff, hgroup] at hg
        cases hg
      ungrouped := fun hnone => by
        refine ⟨fun g => by rw [hl.children, hnone], fun n => ?_⟩
        rw [hl.groupOf]
        by_cases hn : n = .inst i
        · rw [if_pos hn, hn, hnone]
        · rw [if_neg hn, hnone, Option.none_or, ite_self]
      joins := fun g hg hthere => ⟨hplace g hg, hl.children_joined hc hg hthere⟩
      takes_place := fun g hg hthere =>
        ⟨hplace g hg, place_found hc hg, hl.children_taken hc hg hthere⟩
      other_groups := fun n hn hn' => by rw [hl.groupOf, if_neg hn, if_neg hn']
      other_hosts := fun j hj => by rw [hl.hostOf, if_neg hj]
      links := hedits.links
      chains := hedits.chains
      counter := hedits.counter
      identOf? := hedits.identOf?
      ancestors := fun n hn hn' hfree => hl.ancestors hc hs.grounded ht hn hn' hfree }

/-! ### Several instances -/

theorem placeAllOn_of_there {instances : List InstanceKey}
    (h' : ∀ j ∈ instances, s.hostOf? j = some h) : s.placeAllOn h instances = s := by
  induction instances with
  | nil => rfl
  | cons j rest ih =>
    obtain ⟨hj, hrest⟩ := List.forall_mem_cons.mp h'
    rw [placeAllOn, List.foldl_cons, placeOn_of_there hj]
    exact ih hrest

/-- An instance that is on the host changes nothing; any other is put there. -/
def Hosts (s t : Session) (i : InstanceKey) (h : HostKey) : Prop :=
  (s.hostOf? i = some h → t = s) ∧ (s.hostOf? i ≠ some h → Hosted s t i h)

theorem hosts_placeOn (hs : s.Built) (hi : s.HasInstance i) (hh : s.HasHost h) :
    Hosts s (s.placeOn i h) i h :=
  ⟨placeOn_of_there, hosted_placeOn hs.sound hi hh⟩

/-- Hosting an instance. One that is on the host already changes nothing. Any other one comes last on the
    host; its old host loses it, and so does its group, where the host takes its place unless it is in
    that group already; and no other list, node, link or ident changes. Several instances are hosted
    one after the other, each in this way. -/
theorem placeOn_hosts {s : Session} (hs : s.Built) {h : HostKey} (hh : s.HasHost h) :
    (∀ i, s.HasInstance i → Hosts s (s.placeOn i h) i h) ∧
    ∀ instances, (∀ i ∈ instances, s.HasInstance i) →
      ((∀ i ∈ instances, s.hostOf? i = some h) → s.placeAllOn h instances = s) ∧
      ∀ before i after, instances = before ++ i :: after →
        Hosts (s.placeAllOn h before) (s.placeAllOn h (before ++ [i])) i h := by
  refine ⟨fun i hi => hosts_placeOn hs hi hh, fun instances hinstances =>
    ⟨placeAllOn_of_there, ?_⟩⟩
  rintro before i after rfl
  have hbefore : ∀ j ∈ before, s.HasInstance j := fun j hj => hinstances j (List.mem_append_left _ hj)
  have hbuilt : (s.placeAllOn h before).Built := hs.call (.placeAllOn h before) ⟨hh, hbefore⟩
  have hkeeps := leads_placeAllOn hh hbefore
  have hlast : s.placeAllOn h (before ++ [i]) = (s.placeAllOn h before).placeOn i h := by
    rw [placeAllOn, List.foldl_append]
    rfl
  rw [hlast]
  exact hosts_placeOn hbuilt (hkeeps.grows.hasInstance (hinstances i (by simp)))
    (hkeeps.grows.hasHost hh)

/-- Two groups, with three instances in one and a host in the other. -/
def yard : Session :=
  [.step (.newGroup (some "app")), .step (.newGroup (some "machines")), .step .newHost,
    .step (.newInstance "web"), .step (.newInstance "api"), .step (.newInstance "db"),
    .step (.placeIn (.inst ⟨0⟩) ⟨0⟩), .step (.placeIn (.inst ⟨1⟩) ⟨0⟩),
    .step (.placeIn (.inst ⟨2⟩) ⟨0⟩), .step (.placeIn (.host ⟨0⟩) ⟨1⟩)].foldl Call.run (.fresh .dark)

/-- The host comes between the two instances that stay, and leaves its own group. -/
theorem yard_hosts : yard.Built ∧ yard.HasHost ⟨0⟩ ∧
    let t := yard.placeOn ⟨1⟩ ⟨0⟩
    t.residents ⟨0⟩ = [⟨1⟩] ∧ t.groupOf? (.host ⟨0⟩) = some ⟨0⟩ ∧
      Replaces [.inst ⟨0⟩, .inst ⟨1⟩, .inst ⟨2⟩] (.inst ⟨1⟩) [.host ⟨0⟩] (t.children ⟨0⟩) ∧
      Replaces [.host ⟨0⟩] (.host ⟨0⟩) [] (t.children ⟨1⟩) := by
  have hbuilt : yard.Built := (Built.fresh .dark).foldl (by decide)
  have hhost : yard.HasHost ⟨0⟩ := by decide
  obtain ⟨hone, -⟩ := placeOn_hosts hbuilt hhost
  have h := (hone ⟨1⟩ (by decide)).2 (by decide)
  obtain ⟨hgroup, -, hslot, hleft, -⟩ := h.takes_place ⟨0⟩ (by decide) (by decide)
  exact ⟨hbuilt, hhost, h.last, hgroup, hslot, hleft ⟨1⟩ (by decide)⟩

end Session

end Schematic
