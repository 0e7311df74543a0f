import Schematic.Proofs.Document.Links
import Schematic.Proofs.Document.Placing

/-! Where everything is when a document has been declared in a new session: groups in a forest, as far
    as they name each other without a circle, hosts where their instances were to be, and instances on
    their hosts. -/

namespace Schematic

open List (Forall₂)

namespace Draft

/-! ### Elements -/

theorem sameNesting_addHost (d : Draft) (h : HostEntry) :
    d.session.SameNesting (d.addHost h).session := by
  simp only [addHost]
  split
  · exact Session.sameNesting_newHost.trans
      (Session.sameNesting_modifyHost (by intro _; rfl) (by intro _; rfl))
  · exact Session.sameNesting_newHost

theorem sameNesting_addInstance (d : Draft) (i : InstanceEntry) :
    d.session.SameNesting (d.addInstance i).session := by
  have hnote : ∀ {s : Session} {key text}, s.SameNesting (s.annotate key text) :=
    Session.sameNesting_modifyInstance (by intro _; rfl) (by intro _; rfl)
  have hmany : ∀ {s : Session} {key}, s.SameNesting (s.replicateInstance key) :=
    Session.sameNesting_modifyInstance (by intro _; rfl) (by intro _; rfl)
  have hnew := Session.sameNesting_newInstance (s := d.session) (i.name.getD i.id)
  obtain ⟨id, name, details, multiple, within, on⟩ := i
  cases details with
  | none =>
    cases multiple with
    | false => exact hnew
    | true => exact hnew.trans hmany
  | some text =>
    cases multiple with
    | false => exact hnew.trans hnote
    | true => exact (hnew.trans hnote).trans hmany

end Draft

namespace Document

variable {doc : Document}

/-- New elements are in nothing, and what was there stays where it was. -/
theorem sameNesting_elements (doc : Document) (s : Session) :
    s.SameNesting (doc.elements s).session := by
  have hgroups : s.SameNesting (doc.groups.foldl Draft.addGroup { session := s }).session :=
    List.foldlRecOn (motive := fun d => s.SameNesting d.session) doc.groups Draft.addGroup
      (Session.SameNesting.refl s) fun _ hd g _ => hd.trans (Session.sameNesting_newGroup g.name)
  have hhosts : s.SameNesting (doc.containers s).session :=
    List.foldlRecOn (motive := fun d => s.SameNesting d.session) doc.hosts Draft.addHost hgroups
      fun d hd h _ => hd.trans (Draft.sameNesting_addHost d h)
  exact List.foldlRecOn (motive := fun d => s.SameNesting d.session) doc.instances Draft.addInstance
    hhosts fun d hd i _ => hd.trans (Draft.sameNesting_addInstance d i)

theorem grown_elements (doc : Document) (s : Session) : Draft.Grown s (doc.elements s) := by
  have hstart : Draft.Grown s { session := s } :=
    ⟨.refl s, fun h => by simp [Declared.node?] at h⟩
  have hgroups := Draft.grown_foldl (fun g hd => Draft.grown_addGroup hd g) doc.groups hstart
  have hhosts := Draft.grown_foldl (fun h hd => Draft.grown_addHost hd h) doc.hosts hgroups
  exact Draft.grown_foldl (fun i hd => Draft.grown_addInstance hd i) doc.instances hhosts

theorem of_elements (hdoc : doc.WellFormed) (theme : Theme) :
    Draft.Of doc (doc.elements (.fresh theme)) := by
  have hgrown := doc.grown_elements (.fresh theme)
  refine ⟨(hgrown.leads.reachable (.fresh theme)).sound, hgrown.named, ?_⟩
  intro id n
  rw [← node?_declare, node?_declare_iff hdoc.ids_nodup]

/-- Where everything is: groups in the forest that the document asks for, hosts where the instances
    that were put on them were, or else in their own groups, instances on their hosts, or else in their
    groups. -/
structure LaidOut (doc : Document) (d : Declared) (t : Session) : Prop where
  /-- Ids stand for nodes in document order. -/
  ids : ∀ {id n}, d.node? id = some n ↔ doc.idAt? n = some id
  group : ∀ {k g}, doc.groups[k]? = some g →
    doc.NamesGroup (doc.parents g.id) (t.groupOf? (.group ⟨k⟩))
  /-- Without circles that is the group that the entry names. -/
  acyclic : (∀ id, ¬ Relation.TransGen doc.Asks id id) → ∀ {k g}, doc.groups[k]? = some g →
    doc.NamesGroup g.within (t.groupOf? (.group ⟨k⟩))
  host : ∀ {k h}, doc.hosts[k]? = some h →
    doc.NamesGroup (h.drawnInto doc.instances) (t.groupOf? (.host ⟨k⟩))
  residents : ∀ {k h}, doc.hosts[k]? = some h →
    Forall₂ (fun i key => doc.idAt? (.inst key) = some i.id)
      (doc.instances.filter (·.on = some h.id)) (t.residents ⟨k⟩)
  instance_host : ∀ {k i}, doc.instances[k]? = some i → doc.NamesHost i.on (t.hostOf? ⟨k⟩)
  instance_group : ∀ {k i}, doc.instances[k]? = some i →
    doc.NamesGroup (if i.on.isSome then none else i.within) (t.groupOf? (.inst ⟨k⟩))

theorem mirrors_elements (hdoc : doc.WellFormed) (theme : Theme) :
    Draft.Mirrors doc (fun _ => none) (doc.elements (.fresh theme)) := by
  have hempty := doc.sameNesting_elements (.fresh theme)
  refine ⟨of_elements hdoc theme, fun i => ?_, fun {n} _ => ?_, fun {g id} _ => ?_⟩
  · rw [hempty.hostOf, Session.hostOf?_fresh]
  · rw [hempty.groupOf, Session.groupOf?_fresh]
  · rw [hempty.groupOf, Session.groupOf?_fresh]
    exact .none

/-- When everything is in its place, instances are on their hosts, and groups are grafted. -/
theorem lodging_nest (hdoc : doc.WellFormed) (theme : Theme) : ∃ d₀,
    Draft.Lodging doc doc.instances d₀ (doc.nest (doc.elements (.fresh theme))) ∧
      ∀ {g id}, doc.idAt? (.group g) = some id →
        doc.NamesGroup (doc.parents id) (d₀.session.groupOf? (.group g)) := by
  have hgroups : Draft.Mirrors doc doc.parents
      (doc.groups.foldl Draft.settleGroup (doc.elements (.fresh theme))) :=
    (mirrors_elements hdoc theme).settleGroups hdoc (List.Subset.refl _)
  generalize hd₁ : doc.groups.foldl Draft.settleGroup (doc.elements (.fresh theme)) = d₁ at hgroups
  have hhosts : Draft.Settled doc (fun k => .host ⟨k⟩) (·.within) doc.hosts d₁
      (doc.hosts.foldl Draft.settleHost d₁) := by
    refine Draft.Settled.foldl (by rintro _ _ ⟨⟩; rfl) (by simp) ?_ ?_
      hdoc.host_within hgroups.of hgroups.unhosted (fun k => hgroups.loose (by simp))
      (List.prefix_refl _)
    · intro k h hk
      exact ⟨h.id, by rw [idAt?, hk]; rfl⟩
    · intro d k h hd hk
      rw [Draft.settleHost, hd.host? (k := ⟨k⟩) (by rw [idAt?, hk]; rfl)]
      rfl
  generalize hd₂ : doc.hosts.foldl Draft.settleHost d₁ = d₂ at hhosts
  have hinstances : Draft.Settled doc (fun k => .inst ⟨k⟩) (·.within) doc.instances d₂
      (doc.instances.foldl Draft.settleInstance d₂) := by
    refine Draft.Settled.foldl (by rintro _ _ ⟨⟩; rfl) (by simp) ?_ ?_
      hdoc.instance_within hhosts.of hhosts.unhosted (fun k => ?_) (List.prefix_refl _)
    · intro k i hk
      exact ⟨i.id, by rw [idAt?, hk]; rfl⟩
    · intro d k i hd hk
      rw [Draft.settleInstance, hd.instance? (i := ⟨k⟩) (by rw [idAt?, hk]; rfl)]
      rfl
    · rw [hhosts.others (by simp), hgroups.loose (by simp)]
  generalize hd₃ : doc.instances.foldl Draft.settleInstance d₂ = d₃ at hinstances
  have hstart : Draft.Lodging doc [] d₃ d₃ := by
    refine ⟨hinstances.of, fun _ hlt => absurd hlt (by simp), fun _ hlt => absurd hlt (by simp),
      fun _ => hinstances.unhosted _, fun hk _ => hinstances.placed hk, fun {k h} hk => ?_,
      fun _ => rfl, fun {k h} _ => ?_⟩
    · rw [hinstances.others (by simp)]
      exact hhosts.placed hk
    · have hnone : d₃.session.residents ⟨k⟩ = [] := by
        refine List.eq_nil_iff_forall_not_mem.mpr fun i hi => ?_
        rw [hinstances.of.sound.coherent.resident_iff, hinstances.unhosted] at hi
        cases hi
      rw [hnone]
      exact .nil
  refine ⟨d₃, ?_, fun {g id} hg => ?_⟩
  · rw [nest, hd₁, hd₂, hd₃]
    exact hstart.foldl hdoc (List.prefix_refl _)
  · rw [hinstances.others (by simp), hhosts.others (by simp)]
    exact hgroups.parent hg

/-- Declaring a document without faults in a new session puts everything where the document says. -/
theorem declare_lays_out (hvalid : doc.validate = .ok ()) (theme : Theme) :
    LaidOut doc (doc.declare (.fresh theme)).1 (doc.declare (.fresh theme)).2 := by
  have hdoc := validate_eq_ok.mp hvalid
  obtain ⟨d₀, hnest, hforest⟩ := lodging_nest hdoc theme
  obtain ⟨systems, -, hadds, -⟩ := declare_adds doc (.fresh theme)
  have hsame := hadds.appends.sameNesting
  have hgroup : ∀ {k g}, doc.groups[k]? = some g →
      doc.NamesGroup (doc.parents g.id) ((doc.declare (.fresh theme)).2.groupOf? (.group ⟨k⟩)) := by
    intro k g hk
    rw [hsame.groupOf, hnest.group_group]
    exact hforest (by rw [idAt?, hk]; rfl)
  constructor
  · exact node?_declare_iff hdoc.ids_nodup theme
  · exact hgroup
  · intro hacyclic k g hk
    have := hgroup hk
    rwa [parents_of_acyclic hacyclic (ids_nodup_iff.mp hdoc.ids_nodup).1 (List.mem_of_getElem? hk)]
      at this
  · intro k h hk
    rw [hsame.groupOf]
    exact hnest.host_group hk
  · intro k h hk
    rw [hsame.residents]
    exact hnest.residents hk
  · intro k i hk
    rw [hsame.hostOf]
    exact hnest.host hk (List.getElem?_eq_some_iff.mp hk).1
  · intro k i hk
    rw [hsame.groupOf]
    exact hnest.group hk (List.getElem?_eq_some_iff.mp hk).1

/-- Two groups inside each other, and a host in the first one with an instance that is to be in the
    second. -/
def knot : Document where
  groups := [{ id := "front", within := some "back" }, { id := "back", within := some "front" }]
  hosts := [{ id := "node", within := some "front" }]
  instances := [{ id := "api", within := some "back", on := some "node" },
    { id := "db", on := some "node" }, { id := "cache", within := some "front" }]

/-- The circle is not closed, and the host goes where its instance was to be. -/
theorem knot_laid_out : knot.validate = .ok () ∧ knot.parents "back" = none ∧
    ∃ g, (knot.declare (.fresh .dark)).2.groupOf? (.host ⟨0⟩) = some g ∧
      knot.idAt? (.group g) = some "back" := by
  have hlaid : LaidOut knot _ _ := declare_lays_out (by decide) .dark
  refine ⟨by decide, ?_, ?_⟩
  · have hback := hlaid.group (k := 1) (g := knot.groups[1]) rfl
    rw [show (knot.declare (.fresh .dark)).2.groupOf? (.group ⟨1⟩) = none by decide] at hback
    generalize hparent : knot.parents knot.groups[1].id = o at hback
    cases hback
    exact hparent
  · have hhost := hlaid.host (k := 0) (h := knot.hosts[0]) rfl
    rw [show knot.hosts[0].drawnInto knot.instances = some "back" by decide] at hhost
    generalize (knot.declare (.fresh .dark)).2.groupOf? (.host ⟨0⟩) = o at hhost
    cases hhost with
    | some hid => exact ⟨_, rfl, hid⟩

end Document

end Schematic
