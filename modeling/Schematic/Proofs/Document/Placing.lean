import Mathlib.Data.List.Forall2
import Mathlib.Data.List.Induction
import Schematic.Proofs.Document.Forest
import Schematic.Proofs.Document.Names
import Schematic.Proofs.Session.Reachable

/-! Putting the elements of a document into each other. Elements are put into groups kind by kind, and
    then instances on their hosts. Each pass over the entries of one kind only moves the nodes of that
    kind, but for the last one: there a host follows the instances that are put on it. -/

namespace Schematic

open List (Forall₂)

namespace Document

/-- The id, if there is one, is that of the group, if there is one. -/
def NamesGroup (doc : Document) : Option String → Option GroupKey → Prop :=
  Option.Rel fun id g => doc.idAt? (.group g) = some id

/-- The id, if there is one, is that of the host, if there is one. -/
def NamesHost (doc : Document) : Option String → Option HostKey → Prop :=
  Option.Rel fun id h => doc.idAt? (.host h) = some id

end Document

/-- The group that a host is in after some instances were put on their hosts: the one that the last
    instance on this host was in, if any was in one, and else its own. -/
def HostEntry.drawnInto (h : HostEntry) (instances : List InstanceEntry) : Option String :=
  ((instances.filter (·.on = some h.id)).filterMap (·.within)).getLast?.or h.within

/-- One more instance. -/
theorem HostEntry.drawnInto_append (h : HostEntry) (is : List InstanceEntry) (i : InstanceEntry) :
    h.drawnInto (is ++ [i]) =
      if i.on = some h.id then i.within.or (h.drawnInto is) else h.drawnInto is := by
  by_cases hon : i.on = some h.id
  · cases hw : i.within <;> simp [drawnInto, hon, hw]
  · simp [drawnInto, hon]

variable {doc : Document} {d : Draft}

theorem Document.NamesGroup.or {a b : Option String} {g k : Option GroupKey}
    (ha : doc.NamesGroup a g) (hb : doc.NamesGroup b k) : doc.NamesGroup (a.or b) (g.or k) := by
  cases ha with
  | some h => exact .some h
  | none => rwa [Option.none_or, Option.none_or]

namespace Draft

/-! ### Drafts of a document -/

/-- The session is in order and has the elements of the document, and ids stand for them. -/
structure Of (doc : Document) (d : Draft) : Prop where
  sound : d.session.Sound
  named : ∀ {id n}, d.declared.node? id = some n → d.session.HasNode n
  ids : ∀ {id n}, d.declared.node? id = some n ↔ doc.idAt? n = some id

namespace Of

theorem hasNode (h : Of doc d) {n : Node} {id : String} (hn : doc.idAt? n = some id) :
    d.session.HasNode n := h.named (h.ids.mpr hn)

/-- Different nodes have different ids. -/
theorem eq_of_idAt? (h : Of doc d) {m n : Node} {id : String} (hm : doc.idAt? m = some id)
    (hn : doc.idAt? n = some id) : m = n :=
  Option.some.inj ((h.ids.mpr hm).symm.trans (h.ids.mpr hn))

theorem group? (h : Of doc d) {g : GroupKey} {id : String} (hg : doc.idAt? (.group g) = some id) :
    d.declared.group? id = some g := Declared.group?_eq_some.mpr (h.ids.mpr hg)

theorem host? (h : Of doc d) {k : HostKey} {id : String} (hk : doc.idAt? (.host k) = some id) :
    d.declared.host? id = some k := Declared.host?_eq_some.mpr (h.ids.mpr hk)

theorem instance? (h : Of doc d) {i : InstanceKey} {id : String}
    (hi : doc.idAt? (.inst i) = some id) : d.declared.instance? id = some i :=
  Declared.instance?_eq_some.mpr (h.ids.mpr hi)

/-- A change of what is inside what. -/
theorem place (h : Of doc d) {t : Session} (ht : t.Sound)
    (hsame : d.session.SameElements t) : Of doc { d with session := t } :=
  ⟨ht, fun hn => (hsame.hasNode _).mpr (h.named hn), h.ids⟩

end Of

theorem settle_none (d : Draft) (node : Option Node) : d.settle node none = d := by
  cases node <;> rfl

/-- Putting a node into a group by their ids. -/
theorem Of.settle (h : Of doc d) {n : Node} {g : GroupKey} {id p : String}
    (hn : doc.idAt? n = some id) (hg : doc.idAt? (.group g) = some p) :
    Of doc (d.settle (some n) (some p)) ∧
      (d.settle (some n) (some p)).session.hostOf? = d.session.hostOf? ∧
      ∀ m, (d.settle (some n) (some p)).session.groupOf? m =
        if m = d.session.standIn n ∧ d.session.encloses (d.session.standIn n) g = false then some g
        else d.session.groupOf? m := by
  have heq : d.settle (some n) (some p) = { d with session := d.session.placeIn n g } := by
    simp only [Draft.settle, Option.bind_some, h.group? hg]
  have hcoherent := h.sound.coherent
  rw [heq]
  refine ⟨h.place ?_ ?_, funext fun i => ?_, fun m => ?_⟩
  · exact Session.sound_placeIn h.sound (h.hasNode hn) (h.hasNode hg)
  · exact Session.sameElements_placeIn n g
  · exact Session.hostOf?_placeIn hcoherent (h.hasNode hn) (h.hasNode hg) i
  · exact Session.groupOf?_placeIn hcoherent (h.hasNode hn) (h.hasNode hg) m

/-! ### Groups -/

/-- Nothing has been put into anything but groups into groups, and each group is in the one that `up`
    gives for it. -/
structure Mirrors (doc : Document) (up : String → Option String) (d : Draft) : Prop where
  of : Of doc d
  unhosted : ∀ i, d.session.hostOf? i = none
  loose : ∀ {n}, (∀ g, n ≠ .group g) → d.session.groupOf? n = none
  parent : ∀ {g id}, doc.idAt? (.group g) = some id →
    doc.NamesGroup (up id) (d.session.groupOf? (.group g))

namespace Mirrors

variable {up : String → Option String}

/-- Going outwards is the same among keys and among ids. -/
theorem reaches_iff (h : Mirrors doc up d) {a b : GroupKey} {p id : String}
    (ha : doc.idAt? (.group a) = some p) (hb : doc.idAt? (.group b) = some id) :
    Relation.ReflTransGen (fun m n => d.session.outer? m = some n) (.group a) (.group b) ↔
      Inside up p id := by
  constructor
  · have hkeys : ∀ n, Relation.ReflTransGen (fun m n => d.session.outer? m = some n) (.group a) n →
        ∃ g id, n = .group g ∧ doc.idAt? (.group g) = some id ∧ Inside up p id := by
      intro n hn
      induction hn with
      | refl => exact ⟨a, p, rfl, ha, .refl⟩
      | tail _ hstep ih =>
        obtain ⟨g, id, rfl, hg, hin⟩ := ih
        obtain ⟨k, hk, rfl⟩ := Option.map_eq_some_iff.mp hstep
        have hparent := h.parent hg
        rw [hk] at hparent
        generalize hup : up id = o at hparent
        cases hparent with
        | some hid => exact ⟨k, _, rfl, hid, hin.tail hup⟩
    intro hreach
    obtain ⟨g, id', hg, hid', hin⟩ := hkeys _ hreach
    cases hg
    rw [hid', Option.some.injEq] at hb
    rw [← hb]
    exact hin
  · have hids : ∀ id, Inside up p id → ∃ g, doc.idAt? (.group g) = some id ∧
        Relation.ReflTransGen (fun m n => d.session.outer? m = some n) (.group a) (.group g) := by
      intro id hid
      induction hid with
      | refl => exact ⟨a, ha, .refl⟩
      | tail _ hstep ih =>
        obtain ⟨g, hg, hreach⟩ := ih
        have hparent := h.parent hg
        rw [hstep] at hparent
        generalize hk : d.session.groupOf? (.group g) = o at hparent
        cases hparent with
        | some hid =>
          exact ⟨_, hid, hreach.tail ((Session.outer?_eq_group_iff h.of.sound.coherent).mpr hk)⟩
    intro hin
    obtain ⟨g, hg, hreach⟩ := hids id hin
    rwa [h.of.eq_of_idAt? hg hb] at hreach

/-- A group may be put into another one just when that one is not inside it. -/
theorem encloses_iff (h : Mirrors doc up d) {a b : GroupKey} {p id : String}
    (ha : doc.idAt? (.group a) = some p) (hb : doc.idAt? (.group b) = some id) :
    d.session.encloses (.group b) a = true ↔ Inside up p id := by
  have hclimb := Session.climb_ancestors h.of.sound.coherent h.of.sound.grounded (.group a)
  rw [← h.reaches_iff ha hb, ← hclimb.mem_iff_reaches]
  simp [Session.encloses]

/-- Putting a group into the one that its entry names grafts it. -/
theorem settleGroup (h : Mirrors doc up d) {k : Nat} {g : GroupEntry} (hk : doc.groups[k]? = some g)
    (hwithin : ∀ id ∈ g.within, doc.Has .group id) :
    Mirrors doc (graft up g) (d.settleGroup g) := by
  have hid : doc.idAt? (.group ⟨k⟩) = some g.id := by rw [Document.idAt?, hk]; rfl
  rw [Draft.settleGroup, h.of.group? hid, Option.map_some]
  cases hw : g.within with
  | none =>
    rw [settle_none, graft_of_none hw]
    exact h
  | some p =>
    obtain ⟨a, ha⟩ := Document.group_of_has (hwithin p hw)
    obtain ⟨hof, hhost, hgroup⟩ := h.of.settle hid ha
    have hstand : d.session.standIn (.group ⟨k⟩) = .group ⟨k⟩ := rfl
    rw [hstand] at hgroup
    have hkept : ∀ {n : Node}, n ≠ .group ⟨k⟩ → (d.settle (some (.group ⟨k⟩)) (some p)).session.groupOf? n =
        d.session.groupOf? n := by
      intro n hn
      rw [hgroup, if_neg fun hc => hn hc.1]
    refine ⟨hof, fun i => by rw [hhost]; exact h.unhosted i, fun {n} hn => ?_, fun {b id} hb => ?_⟩
    · rw [hkept (hn _)]
      exact h.loose hn
    · by_cases hin : Inside up p g.id
      · rw [graft_of_inside hw hin, hgroup, if_neg]
        · exact h.parent hb
        · simp [(h.encloses_iff ha hid).mpr hin]
      · have hfree : d.session.encloses (.group ⟨k⟩) a = false :=
          Bool.eq_false_iff.mpr (mt (h.encloses_iff ha hid).mp hin)
        rw [graft_of_not_inside hw hin]
        by_cases hbk : b = ⟨k⟩
        · subst hbk
          rw [hid, Option.some.injEq] at hb
          rw [← hb, Function.update_self, hgroup, if_pos ⟨rfl, hfree⟩]
          exact .some ha
        · have hne : id ≠ g.id := by
            rintro rfl
            exact hbk (Node.group.inj (h.of.eq_of_idAt? hb hid))
          rw [Function.update_of_ne hne, hkept (by simpa using hbk)]
          exact h.parent hb

/-- The groups of a document are grafted one after the other. -/
theorem settleGroups (hdoc : doc.WellFormed) : ∀ {gs : List GroupEntry} {up : String → Option String}
    {d : Draft}, gs ⊆ doc.groups → Mirrors doc up d →
    Mirrors doc (gs.foldl graft up) (gs.foldl Draft.settleGroup d)
  | [], _, _, _, h => h
  | g :: gs, up, d, hsub, h => by
    obtain ⟨hg, hrest⟩ := List.cons_subset.mp hsub
    obtain ⟨k, hk⟩ := List.getElem?_of_mem hg
    rw [List.foldl_cons, List.foldl_cons]
    exact settleGroups hdoc hrest (h.settleGroup hk (hdoc.group_within g hg))

end Mirrors

/-! ### Hosts and instances -/

/-- After a pass over the entries `as`, which are for the nodes `node 0`, `node 1` and so on: each of
    these nodes is in the group that its entry names, and all other nodes are where they were. -/
structure Settled {α : Type} (doc : Document) (node : Nat → Node) (within : α → Option String)
    (as : List α) (d₀ d : Draft) : Prop where
  of : Of doc d
  unhosted : ∀ i, d.session.hostOf? i = none
  placed : ∀ {k a}, as[k]? = some a →
    doc.NamesGroup (within a) (d.session.groupOf? (node k))
  others : ∀ {n}, (∀ k, k < as.length → n ≠ node k) →
    d.session.groupOf? n = d₀.session.groupOf? n

theorem standIn_of_unhosted {s : Session} (h : ∀ i, s.hostOf? i = none) (n : Node) :
    s.standIn n = n := by
  cases n with
  | inst i => rw [Session.standIn, h]
  | host k => rfl
  | group g => rfl

/-- The entries of a longer list are the old ones and the new one. -/
theorem getElem?_concat_cases {α : Type} {as : List α} {a b : α} {k : Nat}
    (hk : (as ++ [a])[k]? = some b) :
    as[k]? = some b ∧ k < as.length ∨ k = as.length ∧ a = b := by
  rw [List.getElem?_append] at hk
  by_cases hlt : k < as.length
  · rw [if_pos hlt] at hk
    exact .inl ⟨hk, hlt⟩
  · rw [if_neg hlt, List.getElem?_singleton] at hk
    split at hk
    · exact .inr ⟨by omega, Option.some.inj hk⟩
    · cases hk

/-- One more entry of a pass. -/
theorem Settled.settle {α : Type} {node : Nat → Node} {within : α → Option String} {as : List α}
    {d₀ : Draft} (h : Settled doc node within as d₀ d) (hinj : ∀ {j k}, node j = node k → j = k)
    (hnode : ∀ k g, node k ≠ .group g) (hloose : ∀ k, d₀.session.groupOf? (node k) = none)
    {a : α} {id : String} (hid : doc.idAt? (node as.length) = some id)
    (hwithin : ∀ id ∈ within a, doc.Has .group id) :
    Settled doc node within (as ++ [a]) d₀ (d.settle (some (node as.length)) (within a)) := by
  have hstart : d.session.groupOf? (node as.length) = none := by
    rw [h.others fun k hk he => Nat.ne_of_gt hk (hinj he), hloose]
  cases hw : within a with
  | none =>
    rw [settle_none]
    refine ⟨h.of, h.unhosted, fun {k b} hk => ?_, fun {n} hn => h.others fun k hk => hn k ?_⟩
    · rcases getElem?_concat_cases hk with ⟨hold, -⟩ | ⟨rfl, rfl⟩
      · exact h.placed hold
      · rw [hw, hstart]
        exact .none
    · rw [List.length_append]
      exact Nat.lt_of_lt_of_le hk (Nat.le_add_right ..)
  | some p =>
    obtain ⟨g, hg⟩ := Document.group_of_has (hwithin p hw)
    obtain ⟨hof, hhost, hgroup⟩ := h.of.settle hid hg
    have hfree : d.session.encloses (node as.length) g = false := by
      cases hn : node as.length with
      | inst i => rfl
      | host k => rfl
      | group k => exact absurd hn (hnode _ k)
    simp only [standIn_of_unhosted h.unhosted, hfree, and_true] at hgroup
    refine ⟨hof, fun i => by rw [hhost]; exact h.unhosted i, fun {k b} hk => ?_, fun {n} hn => ?_⟩
    · rcases getElem?_concat_cases hk with ⟨hold, hlt⟩ | ⟨rfl, rfl⟩
      · rw [hgroup, if_neg fun he => Nat.ne_of_lt hlt (hinj he)]
        exact h.placed hold
      · rw [hw, hgroup, if_pos rfl]
        exact .some hg
    · have hlen : (as ++ [a]).length = as.length + 1 := by simp
      rw [hgroup, if_neg (hn as.length (by omega))]
      exact h.others fun k hk => hn k (by omega)

/-- A whole pass. -/
theorem Settled.foldl {α : Type} {node : Nat → Node} {within : α → Option String} {as : List α}
    {f : Draft → α → Draft} {d₀ : Draft}
    (hinj : ∀ {j k}, node j = node k → j = k) (hnode : ∀ k g, node k ≠ .group g)
    (hid : ∀ {k a}, as[k]? = some a → ∃ id, doc.idAt? (node k) = some id)
    (hf : ∀ {d k a}, Of doc d → as[k]? = some a → f d a = d.settle (some (node k)) (within a))
    (hwithin : ∀ a ∈ as, ∀ id ∈ within a, doc.Has .group id)
    (hof : Of doc d₀) (hfree : ∀ i, d₀.session.hostOf? i = none)
    (hloose : ∀ k, d₀.session.groupOf? (node k) = none) {seen : List α} (hseen : seen <+: as) :
    Settled doc node within seen d₀ (seen.foldl f d₀) := by
  induction seen using List.reverseRecOn with
  | nil => exact ⟨hof, hfree, by simp, fun _ => rfl⟩
  | append_singleton seen a ih =>
    have hprev := ih ((List.prefix_append seen [a]).trans hseen)
    have ha : as[seen.length]? = some a := by
      obtain ⟨rest, rfl⟩ := hseen
      simp
    obtain ⟨id, hid⟩ := hid ha
    rw [List.foldl_append, List.foldl_cons, List.foldl_nil, hf hprev.of ha]
    exact hprev.settle hinj hnode hloose hid (hwithin a (List.mem_of_getElem? ha))

/-! ### Hosts of instances -/

/-- After the instances `is`, the first ones of the document, were put on their hosts: these are there,
    in order, and in no group; all others are where they were. Hosts went where their instances were. -/
structure Lodging (doc : Document) (is : List InstanceEntry) (d₀ d : Draft) : Prop where
  of : Of doc d
  host : ∀ {k i}, doc.instances[k]? = some i → k < is.length →
    doc.NamesHost i.on (d.session.hostOf? ⟨k⟩)
  group : ∀ {k i}, doc.instances[k]? = some i → k < is.length →
    doc.NamesGroup (if i.on.isSome then none else i.within) (d.session.groupOf? (.inst ⟨k⟩))
  unhosted : ∀ {k}, is.length ≤ k → d.session.hostOf? ⟨k⟩ = none
  loose : ∀ {k i}, doc.instances[k]? = some i → is.length ≤ k →
    doc.NamesGroup i.within (d.session.groupOf? (.inst ⟨k⟩))
  host_group : ∀ {k h}, doc.hosts[k]? = some h →
    doc.NamesGroup (h.drawnInto is) (d.session.groupOf? (.host ⟨k⟩))
  group_group : ∀ g, d.session.groupOf? (.group g) = d₀.session.groupOf? (.group g)
  residents : ∀ {k h}, doc.hosts[k]? = some h →
    Forall₂ (fun i key => doc.idAt? (.inst key) = some i.id) (is.filter (·.on = some h.id))
      (d.session.residents ⟨k⟩)

theorem lodge_of_none {i : InstanceEntry} (h : i.on = none) : d.lodge i = d := by
  unfold lodge
  rw [h]
  cases d.declared.instance? i.id <;> rfl

theorem lodge_of_some (h : Of doc d) {i : InstanceEntry} {key : InstanceKey} {k : HostKey} {p : String}
    (hi : doc.idAt? (.inst key) = some i.id) (hon : i.on = some p)
    (hk : doc.idAt? (.host k) = some p) :
    d.lodge i = { d with session := d.session.placeOn key k } := by
  simp only [lodge, hon, Option.bind_some, h.instance? hi, h.host? hk]

/-- An entry has the id of a host just when it is for that host. -/
theorem Of.on_iff (h : Of doc d) {i : InstanceEntry} {k : HostKey} {p : String}
    (hon : i.on = some p) (hk : doc.idAt? (.host k) = some p) {j : Nat} {e : HostEntry}
    (he : doc.hosts[j]? = some e) : i.on = some e.id ↔ (⟨j⟩ : HostKey) = k := by
  have hid : doc.idAt? (.host ⟨j⟩) = some e.id := by rw [Document.idAt?, he]; rfl
  rw [hon, Option.some.injEq]
  constructor
  · rintro rfl
    exact Node.host.inj (h.eq_of_idAt? hid hk)
  · rintro rfl
    exact Option.some.inj (hk.symm.trans hid)

section Lodging

variable {is : List InstanceEntry} {d₀ : Draft} {i : InstanceEntry}

/-- The first entries of a document with one more are the old ones and that one. -/
theorem lt_concat_cases (hi : doc.instances[is.length]? = some i) {j : Nat} {e : InstanceEntry}
    (he : doc.instances[j]? = some e) (hj : j < (is ++ [i]).length) :
    j < is.length ∨ j = is.length ∧ i = e := by
  by_cases hold : j < is.length
  · exact .inl hold
  · obtain rfl : j = is.length := by
      rw [List.length_append, List.length_singleton] at hj
      omega
    exact .inr ⟨rfl, Option.some.inj (hi.symm.trans he)⟩

/-- An instance that is on no host stays where it is. -/
theorem Lodging.skip (h : Lodging doc is d₀ d) (hi : doc.instances[is.length]? = some i)
    (hon : i.on = none) : Lodging doc (is ++ [i]) d₀ d := by
  have hlen : (is ++ [i]).length = is.length + 1 := by simp
  refine ⟨h.of, fun {j e} he hj => ?_, fun {j e} he hj => ?_, fun {j} hle => h.unhosted (by omega),
    fun {j e} he hle => h.loose he (by omega), fun {j e} he => ?_, h.group_group,
    fun {j e} he => ?_⟩
  · rcases lt_concat_cases hi he hj with hold | ⟨rfl, rfl⟩
    · exact h.host he hold
    · rw [hon, h.unhosted (Nat.le_refl _)]
      exact .none
  · rcases lt_concat_cases hi he hj with hold | ⟨rfl, rfl⟩
    · exact h.group he hold
    · rw [hon]
      exact h.loose he (Nat.le_refl _)
  · rw [HostEntry.drawnInto_append, if_neg (by simp [hon])]
    exact h.host_group he
  · rw [List.filter_append, List.filter_cons_of_neg (by simp [hon]), List.filter_nil,
      List.append_nil]
    exact h.residents he

section Place

variable {k : HostKey} {p : String} (h : Lodging doc is d₀ d)
  (hi : doc.instances[is.length]? = some i) (hon : i.on = some p)
  (hk : doc.idAt? (.host k) = some p)

include h hi hon hk

/-- The host goes into the group of the instance. -/
theorem Lodging.host_group_place {t : Session} (hl : Session.Lodged d.session t ⟨is.length⟩ k)
    {j : Nat} {e : HostEntry} (he : doc.hosts[j]? = some e) :
    doc.NamesGroup (e.drawnInto (is ++ [i])) (t.groupOf? (.host ⟨j⟩)) := by
  have hsame := h.of.on_iff hon hk he
  rw [hl.groupOf, if_neg (by simp), HostEntry.drawnInto_append]
  by_cases hj : (⟨j⟩ : HostKey) = k
  · rw [if_pos (hsame.mpr hj), if_pos (by rw [hj])]
    exact (h.loose hi (Nat.le_refl _)).or (h.host_group he)
  · rw [if_neg (mt hsame.mp hj), if_neg (by simpa using hj)]
    exact h.host_group he

/-- The instance is the last one on its host, and on no other. -/
theorem Lodging.residents_place {t : Session} (hl : Session.Lodged d.session t ⟨is.length⟩ k)
    {j : Nat} {e : HostEntry} (he : doc.hosts[j]? = some e) :
    Forall₂ (fun i key => doc.idAt? (.inst key) = some i.id)
      ((is ++ [i]).filter (·.on = some e.id)) (t.residents ⟨j⟩) := by
  have hid : doc.idAt? (.inst ⟨is.length⟩) = some i.id := by rw [Document.idAt?, hi]; rfl
  have hsame := h.of.on_iff hon hk he
  have hfree : (⟨is.length⟩ : InstanceKey) ∉ d.session.residents ⟨j⟩ := by
    intro hkey
    rw [h.of.sound.coherent.resident_iff, h.unhosted (Nat.le_refl _)] at hkey
    cases hkey
  rw [hl.residents, filter_of_not_mem hfree, List.filter_append]
  by_cases hj : (⟨j⟩ : HostKey) = k
  · rw [if_pos hj, List.filter_cons_of_pos (by simpa using hsame.mpr hj), List.filter_nil]
    exact List.rel_append (h.residents he) (.cons hid .nil)
  · rw [if_neg hj, List.filter_cons_of_neg (by simpa using mt hsame.mp hj), List.filter_nil,
      List.append_nil, List.append_nil]
    exact h.residents he

/-- An instance that is put on its host takes that host along into its group. -/
theorem Lodging.place : Lodging doc (is ++ [i]) d₀
    { d with session := d.session.placeOn ⟨is.length⟩ k } := by
  have hlen : (is ++ [i]).length = is.length + 1 := by simp
  have hid : doc.idAt? (.inst ⟨is.length⟩) = some i.id := by rw [Document.idAt?, hi]; rfl
  have hnode := h.of.hasNode hid
  have hl := Session.lodged_placeOn h.of.sound.coherent hnode (h.of.hasNode hk)
    (by simp [h.unhosted (Nat.le_refl _)])
  have hhost : ∀ {j : Nat}, j ≠ is.length →
      (d.session.placeOn ⟨is.length⟩ k).hostOf? ⟨j⟩ = d.session.hostOf? ⟨j⟩ := by
    intro j hj
    rw [hl.hostOf, if_neg (by simpa using hj)]
  have hgroup : ∀ {j : Nat}, j ≠ is.length →
      (d.session.placeOn ⟨is.length⟩ k).groupOf? (.inst ⟨j⟩) =
        d.session.groupOf? (.inst ⟨j⟩) := by
    intro j hj
    rw [hl.groupOf, if_neg (by simpa using hj), if_neg (by simp)]
  refine ⟨h.of.place (Session.sound_placeOn h.of.sound hnode (h.of.hasNode hk))
    (Session.sameElements_placeOn _ _), fun {j e} he hj => ?_, fun {j e} he hj => ?_,
    fun {j} hle => ?_, fun {j e} he hle => ?_, h.host_group_place hi hon hk hl, fun g => ?_,
    h.residents_place hi hon hk hl⟩
  · rcases lt_concat_cases hi he hj with hold | ⟨rfl, rfl⟩
    · rw [hhost (Nat.ne_of_lt hold)]
      exact h.host he hold
    · rw [hon, hl.hostOf, if_pos rfl]
      exact .some hk
  · rcases lt_concat_cases hi he hj with hold | ⟨rfl, rfl⟩
    · rw [hgroup (Nat.ne_of_lt hold)]
      exact h.group he hold
    · rw [hon, hl.groupOf, if_pos rfl]
      exact .none
  · rw [hhost (by omega)]
    exact h.unhosted (by omega)
  · rw [hgroup (by omega)]
    exact h.loose he (by omega)
  · rw [hl.groupOf, if_neg (by simp), if_neg (by simp)]
    exact h.group_group g

end Place

end Lodging

/-- All instances of a document. -/
theorem Lodging.foldl (hdoc : doc.WellFormed) {d₀ : Draft} (h : Lodging doc [] d₀ d₀)
    {is : List InstanceEntry} (his : is <+: doc.instances) :
    Lodging doc is d₀ (is.foldl Draft.lodge d₀) := by
  induction is using List.reverseRecOn with
  | nil => exact h
  | append_singleton is i ih =>
    have hprev := ih ((List.prefix_append is [i]).trans his)
    have hi : doc.instances[is.length]? = some i := by
      obtain ⟨rest, hrest⟩ := his
      simp [← hrest]
    have hid : doc.idAt? (.inst ⟨is.length⟩) = some i.id := by rw [Document.idAt?, hi]; rfl
    rw [List.foldl_append, List.foldl_cons, List.foldl_nil]
    cases hon : i.on with
    | none =>
      rw [lodge_of_none hon]
      exact hprev.skip hi hon
    | some p =>
      obtain ⟨k, hk⟩ := Document.host_of_has (hdoc.instance_on i (List.mem_of_getElem? hi) p hon)
      rw [lodge_of_some hprev.of hid hon hk]
      exact hprev.place hi hon hk

end Draft

end Schematic
