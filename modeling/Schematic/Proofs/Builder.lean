import Schematic.Document.Declaration
import Schematic.Proofs.Session.Reachable

/-! All that a builder can do to a session. Calls that do several things, such as putting many
    instances on a host or declaring a whole document, come down to single steps, each of which speaks
    of elements that are there; so what every step keeps holds of every session that was built. -/

namespace Schematic

/-- One call on a session. -/
inductive Call where
  | step (t : Step)
  | placeAllOn (h : HostKey) (instances : List InstanceKey)
  | connect (usage : Usage) (source target : InstanceKey)
  | modifyAll (l : LinkKey) (ms : List Modifier)
  | applyLabels (ls : List Label)
  | declare (doc : Document)

namespace Call

/-- The call speaks of elements of the session only. -/
def Fits (s : Session) : Call → Prop
  | .step t => t.Fits s
  | .placeAllOn h instances => s.HasHost h ∧ ∀ i ∈ instances, s.HasInstance i
  | .connect _ source target => s.HasInstance source ∧ s.HasInstance target
  | .modifyAll l _ => s.HasLink l
  | .applyLabels ls => ∀ l ∈ ls, ∀ i ∈ l.targets, s.HasInstance i
  | .declare _ => True

/-- The session after the call. -/
def run (s : Session) : Call → Session
  | .step t => t.run s
  | .placeAllOn h instances => s.placeAllOn h instances
  | .connect usage source target => (s.connect usage source target).2
  | .modifyAll l ms => s.modifyAll l ms
  | .applyLabels ls => s.applyLabels ls
  | .declare doc => (doc.declare s).2

end Call

/-- The sessions that calls lead to, each call speaking of elements that are there. -/
inductive Session.Built : Session → Prop where
  | fresh (theme : Theme) : Built (Session.fresh theme)
  | call {s : Session} (c : Call) : Built s → c.Fits s → Built (c.run s)

/-! ### Deciding whether calls fit -/

namespace Session

variable (s : Session)

instance decidableHasInstance (i : InstanceKey) : Decidable (s.HasInstance i) :=
  inferInstanceAs (Decidable (_ < _))

instance decidableHasHost (h : HostKey) : Decidable (s.HasHost h) :=
  inferInstanceAs (Decidable (_ < _))

instance decidableHasGroup (g : GroupKey) : Decidable (s.HasGroup g) :=
  inferInstanceAs (Decidable (_ < _))

instance decidableHasLink (l : LinkKey) : Decidable (s.HasLink l) :=
  inferInstanceAs (Decidable (_ < _))

instance decidableHasChain (c : ChainKey) : Decidable (s.HasChain c) :=
  inferInstanceAs (Decidable (_ < _))

instance decidableHasNode : (n : Node) → Decidable (s.HasNode n)
  | .inst i => inferInstanceAs (Decidable (s.HasInstance i))
  | .host h => inferInstanceAs (Decidable (s.HasHost h))
  | .group g => inferInstanceAs (Decidable (s.HasGroup g))

end Session

instance Step.decidableFits (s : Session) : (t : Step) → Decidable (t.Fits s)
  | .newInstance _ | .newHost | .newGroup _ | .newSystem _ | .setTheme _ => .isTrue trivial
  | .annotate i _ | .replicateInstance i => inferInstanceAs (Decidable (s.HasInstance i))
  | .replicateHost h => inferInstanceAs (Decidable (s.HasHost h))
  | .placeOn i h => inferInstanceAs (Decidable (s.HasInstance i ∧ s.HasHost h))
  | .placeIn n g => inferInstanceAs (Decidable (s.HasNode n ∧ s.HasGroup g))
  | .link source target => inferInstanceAs (Decidable (s.HasInstance source ∧ s.HasInstance target))
  | .extend l next => inferInstanceAs (Decidable (s.HasLink l ∧ s.HasInstance next))
  | .modify l _ => inferInstanceAs (Decidable (s.HasLink l))

namespace Call

instance decidableFits (s : Session) : (c : Call) → Decidable (c.Fits s)
  | .step t => inferInstanceAs (Decidable (t.Fits s))
  | .placeAllOn h instances =>
    inferInstanceAs (Decidable (s.HasHost h ∧ ∀ i ∈ instances, s.HasInstance i))
  | .connect _ source target =>
    inferInstanceAs (Decidable (s.HasInstance source ∧ s.HasInstance target))
  | .modifyAll l _ => inferInstanceAs (Decidable (s.HasLink l))
  | .applyLabels ls => inferInstanceAs (Decidable (∀ l ∈ ls, ∀ i ∈ l.targets, s.HasInstance i))
  | .declare _ => .isTrue trivial

/-- Each call fits when its turn comes. -/
def AllFit : Session → List Call → Prop
  | _, [] => True
  | s, c :: cs => c.Fits s ∧ AllFit (c.run s) cs

instance decidableAllFit : (s : Session) → (cs : List Call) → Decidable (AllFit s cs)
  | _, [] => .isTrue trivial
  | s, c :: cs => @instDecidableAnd _ _ _ (decidableAllFit (c.run s) cs)

end Call

theorem Session.Built.foldl : ∀ {cs : List Call} {s : Session}, s.Built → Call.AllFit s cs →
    (cs.foldl Call.run s).Built
  | [], _, hs, _ => hs
  | c :: cs, s, hs, h => by
    rw [List.foldl_cons]
    exact Built.foldl (.call c hs h.1) h.2

namespace Session

variable {s t : Session}

/-! ### Several steps at once -/

/-- What leads on from every session with the elements of `s`, one list entry after the other. -/
theorem leads_foldl {α : Type} {f : Session → α → Session} {p : Session → α → Prop}
    (hmono : ∀ {s t a}, Grows s t → p s a → p t a) (hf : ∀ {s a}, p s a → Leads s (f s a)) :
    ∀ {as : List α} {s : Session}, (∀ a ∈ as, p s a) → Leads s (as.foldl f s)
  | [], s, _ => .refl s
  | a :: as, s, h => by
    have hfirst := hf (h a (List.mem_cons_self ..))
    refine hfirst.trans (leads_foldl (f := f) (p := p) hmono hf fun b hb => ?_)
    exact hmono hfirst.grows (h b (List.mem_cons_of_mem _ hb))

theorem leads_placeAllOn {h : HostKey} (hh : s.HasHost h) {instances : List InstanceKey}
    (hi : ∀ i ∈ instances, s.HasInstance i) : Leads s (s.placeAllOn h instances) := by
  refine leads_foldl (p := fun s i => s.HasInstance i ∧ s.HasHost h) ?_ ?_ fun i hmem => ⟨hi i hmem, hh⟩
  · intro s t i hgrows hp
    exact ⟨hgrows.hasInstance hp.1, hgrows.hasHost hp.2⟩
  · intro s i hp
    exact .step (.placeOn i h) hp

theorem leads_modifyAll {l : LinkKey} (hl : s.HasLink l) (ms : List Modifier) :
    Leads s (s.modifyAll l ms) :=
  leads_foldl (p := fun s _ => s.HasLink l) (fun hgrows hp => hgrows.hasLink hp)
    (fun {_ m} hp => .step (.modify l m) hp) fun _ _ => hl

theorem leads_applyLabels {ls : List Label} (hls : ∀ l ∈ ls, ∀ i ∈ l.targets, s.HasInstance i) :
    Leads s (s.applyLabels ls) := by
  refine leads_foldl (p := fun s l => ∀ i ∈ l.targets, s.HasInstance i) ?_ ?_ hls
  · intro s t l hgrows hp i hi
    exact hgrows.hasInstance (hp i hi)
  · intro s l hl
    refine leads_foldl (p := fun s i => s.HasInstance i) (fun hgrows hp => hgrows.hasInstance hp)
      ?_ hl
    intro s i hi
    exact .step (.annotate i l.text) hi

theorem hasLink_newLink (source target : InstanceKey) (c : Option ChainKey) :
    (s.newLink source target c).2.HasLink (s.newLink source target c).1 := by
  rw [hasLink_iff, newLink_fst, link?_newLink, if_pos rfl]
  exact ⟨_, rfl⟩

theorem hasLink_extend {l : LinkKey} (hl : s.HasLink l) (next : InstanceKey) :
    (s.extend l next).2.HasLink (s.extend l next).1 := by
  obtain ⟨link, hlink⟩ := hasLink_iff.mp hl
  rw [extend, hlink]
  exact hasLink_newLink _ _ _

theorem leads_connect (usage : Usage) {source target : InstanceKey} (hsource : s.HasInstance source)
    (htarget : s.HasInstance target) : Leads s (s.connect usage source target).2 :=
  (Leads.step (.link source target) ⟨hsource, htarget⟩).trans
    (leads_modifyAll (hasLink_newLink source target none) _)

/-! ### Paths of links -/

theorem leads_extendAll (ms : List Modifier) : ∀ (rest : List InstanceKey) {s : Session}
    {l : LinkKey}, s.HasLink l → (∀ i ∈ rest, s.HasInstance i) →
    Leads s (s.extendAll ms l rest).2 ∧
      (s.extendAll ms l rest).2.HasLink (s.extendAll ms l rest).1
  | [], s, _, hl, _ => ⟨.refl s, hl⟩
  | next :: rest, s, l, hl, hrest => by
    have hfirst : Leads s ((s.extend l next).2.modifyAll (s.extend l next).1 ms) :=
      (Leads.step (.extend l next) ⟨hl, hrest next (List.mem_cons_self ..)⟩).trans
        (leads_modifyAll (hasLink_extend hl next) ms)
    have hkey : ((s.extend l next).2.modifyAll (s.extend l next).1 ms).HasLink (s.extend l next).1 :=
      (leads_modifyAll (hasLink_extend hl next) ms).grows.hasLink (hasLink_extend hl next)
    have := leads_extendAll ms rest hkey fun i hi =>
      hfirst.grows.hasInstance (hrest i (List.mem_cons_of_mem _ hi))
    exact ⟨hfirst.trans this.1, this.2⟩

theorem leads_connectPath (entry : LinkEntry) : ∀ {path : List InstanceKey},
    (∀ i ∈ path, s.HasInstance i) → Leads s (s.connectPath entry path).2
  | [], _ => .refl s
  | [_], _ => .refl s
  | first :: second :: rest, hpath => by
    have hnew : Leads s (s.newLink first second none).2 :=
      .step (.link first second) ⟨hpath first (by simp), hpath second (by simp)⟩
    have hhead := hasLink_newLink (s := s) first second none
    have hmod := leads_modifyAll hhead entry.modifiers
    obtain ⟨hext, hlast⟩ := leads_extendAll entry.modifiers rest (hmod.grows.hasLink hhead)
      fun i hi => (hnew.trans hmod).grows.hasInstance (hpath i (by simp [hi]))
    have hall := (hnew.trans hmod).trans hext
    rw [connectPath]
    cases entry.label with
    | none => exact hall
    | some text => exact hall.trans (.step (.modify _ (.label text)) hlast)

end Session

/-! ### Declaring a document -/

namespace Draft

/-- The draft comes of steps from `s`, and its names stand for nodes that are there. -/
structure Grown (s : Session) (d : Draft) : Prop where
  leads : s.Leads d.session
  named : ∀ {id n}, d.declared.node? id = some n → d.session.HasNode n

variable {s : Session} {d : Draft}

namespace Grown

theorem group (hd : Grown s d) {id : String} {g : GroupKey} (h : d.declared.group? id = some g) :
    d.session.HasGroup g := by
  rw [Declared.group?] at h
  split at h
  · next k hk =>
    cases h
    exact hd.named hk
  · cases h

theorem host (hd : Grown s d) {id : String} {k : HostKey} (h : d.declared.host? id = some k) :
    d.session.HasHost k := by
  rw [Declared.host?] at h
  split at h
  · next k hk =>
    cases h
    exact hd.named hk
  · cases h

theorem inst (hd : Grown s d) {id : String} {i : InstanceKey}
    (h : d.declared.instance? id = some i) : d.session.HasInstance i := by
  rw [Declared.instance?] at h
  split at h
  · next k hk =>
    cases h
    exact hd.named hk
  · cases h

theorem path (hd : Grown s d) : ∀ {ids : List String} {is : List InstanceKey},
    d.declared.path? ids = some is → ∀ i ∈ is, d.session.HasInstance i
  | [], is, h, i, hi => by cases h; exact absurd hi List.not_mem_nil
  | id :: ids, is, h, i, hi => by
    rw [Declared.path?] at h
    split at h
    · next j js hj hjs =>
      cases h
      rcases List.mem_cons.mp hi with rfl | hi
      · exact hd.inst hj
      · exact hd.path hjs i hi
    · cases h

/-- A change of the session that comes of steps. -/
theorem lead (hd : Grown s d) {t : Session} (h : d.session.Leads t) (systems : List (List LinkKey)) :
    Grown s ⟨t, { d.declared with systems }⟩ :=
  ⟨hd.leads.trans h, fun hn => h.grows.hasNode (hd.named hn)⟩

/-- A new name for a node that a change of the session made. -/
theorem add (hd : Grown s d) {t : Session} (h : d.session.Leads t) (id : String) {n : Node}
    (hn : t.HasNode n) : Grown s ⟨t, d.declared.add id n⟩ where
  leads := hd.leads.trans h
  named {id' m} hm := by
    rw [Declared.node?, Declared.add, List.lookup_cons] at hm
    split at hm
    · cases hm; exact hn
    · exact h.grows.hasNode (hd.named hm)

end Grown

theorem grown_addGroup (hd : Grown s d) (g : GroupEntry) : Grown s (d.addGroup g) :=
  hd.add (.step (.newGroup g.name) trivial) g.id
    (show d.session.groups.size < (d.session.groups.push _).size by simp)

theorem grown_addHost (hd : Grown s d) (h : HostEntry) : Grown s (d.addHost h) := by
  have hnew : d.session.Leads d.session.newHost.2 := .step .newHost trivial
  have hkey : d.session.newHost.2.HasHost d.session.newHost.1 :=
    show d.session.hosts.size < (d.session.hosts.push _).size by simp
  have hmany := Session.Leads.step (.replicateHost d.session.newHost.1) hkey
  rw [addHost]
  by_cases hm : h.multiple
  · simp only [if_pos hm]
    exact hd.add (hnew.trans hmany) h.id (hmany.grows.hasHost hkey)
  · simp only [if_neg hm]
    exact hd.add hnew h.id hkey

theorem grown_addInstance (hd : Grown s d) (i : InstanceEntry) : Grown s (d.addInstance i) := by
  have hnew : d.session.Leads (d.session.newInstance (i.name.getD i.id)).2 :=
    .step (.newInstance _) trivial
  have hkey : (d.session.newInstance (i.name.getD i.id)).2.HasInstance
      (d.session.newInstance (i.name.getD i.id)).1 :=
    show d.session.instances.size < (d.session.instances.push _).size by simp
  have hmany : ∀ {t : Session}, d.session.Leads t →
      t.HasInstance (d.session.newInstance (i.name.getD i.id)).1 →
      Grown s ⟨if i.multiple then t.replicateInstance (d.session.newInstance (i.name.getD i.id)).1
        else t, d.declared.add i.id (.inst (d.session.newInstance (i.name.getD i.id)).1)⟩ := by
    intro t ht hin
    have hstep := Session.Leads.step (.replicateInstance (d.session.newInstance _).1) hin
    by_cases hm : i.multiple
    · rw [if_pos hm]
      exact hd.add (ht.trans hstep) i.id (hstep.grows.hasInstance hin)
    · rw [if_neg hm]
      exact hd.add ht i.id hin
  simp only [addInstance]
  cases i.details with
  | none => exact hmany hnew hkey
  | some text =>
    have hnote := Session.Leads.step (.annotate (d.session.newInstance _).1 text) hkey
    exact hmany (hnew.trans hnote) (hnote.grows.hasInstance hkey)

theorem grown_settle (hd : Grown s d) {node : Option Node}
    (hnode : ∀ n, node = some n → d.session.HasNode n) (within : Option String) :
    Grown s (d.settle node within) := by
  unfold settle
  split
  · next n g hg =>
    obtain ⟨id, -, hid⟩ := Option.bind_eq_some_iff.mp hg
    exact hd.lead (.step (.placeIn n g) ⟨hnode n rfl, hd.group hid⟩) _
  · exact hd

theorem grown_settleGroup (hd : Grown s d) (g : GroupEntry) : Grown s (d.settleGroup g) := by
  refine grown_settle hd (fun n hn => ?_) g.within
  obtain ⟨k, hk, rfl⟩ := Option.map_eq_some_iff.mp hn
  exact hd.group hk

theorem grown_settleHost (hd : Grown s d) (h : HostEntry) : Grown s (d.settleHost h) := by
  refine grown_settle hd (fun n hn => ?_) h.within
  obtain ⟨k, hk, rfl⟩ := Option.map_eq_some_iff.mp hn
  exact hd.host hk

theorem grown_settleInstance (hd : Grown s d) (i : InstanceEntry) :
    Grown s (d.settleInstance i) := by
  refine grown_settle hd (fun n hn => ?_) i.within
  obtain ⟨k, hk, rfl⟩ := Option.map_eq_some_iff.mp hn
  exact hd.inst hk

theorem grown_lodge (hd : Grown s d) (i : InstanceEntry) : Grown s (d.lodge i) := by
  unfold lodge
  split
  · next key h hkey hh =>
    obtain ⟨id, -, hid⟩ := Option.bind_eq_some_iff.mp hh
    exact hd.lead (.step (.placeOn key h) ⟨hd.inst hkey, hd.host hid⟩) _
  · exact hd

theorem leads_connectPaths (hd : Grown s d) : ∀ (entries : List LinkEntry) {t : Session},
    d.session.Leads t → t.Leads (t.connectPaths d.declared entries).2
  | [], t, _ => .refl t
  | entry :: rest, t, ht => by
    rw [Session.connectPaths]
    split
    · exact leads_connectPaths hd rest ht
    · next path hpath =>
      have hfirst := Session.leads_connectPath (s := t) entry fun i hi =>
        ht.grows.hasInstance (hd.path hpath i hi)
      exact hfirst.trans (leads_connectPaths hd rest (ht.trans hfirst))

theorem grown_addSystem (hd : Grown s d) (entry : SystemEntry) : Grown s (d.addSystem entry) :=
  hd.lead (leads_connectPaths hd entry.links (.refl _)) _

theorem grown_foldl {α : Type} {f : Draft → α → Draft} (hf : ∀ {d} a, Grown s d → Grown s (f d a))
    (as : List α) (hd : Grown s d) : Grown s (as.foldl f d) :=
  List.foldlRecOn as f hd fun _ hd a _ => hf a hd

end Draft

namespace Document

/-- Declaring a document comes down to steps, and gives names only to nodes that are there. -/
theorem grown_declare (doc : Document) (s : Session) :
    Draft.Grown s ⟨(doc.declare s).2, (doc.declare s).1⟩ := by
  have hstart : Draft.Grown s { session := s } :=
    ⟨.refl s, fun h => by simp [Declared.node?] at h⟩
  have hgroups := Draft.grown_foldl (fun g hd => Draft.grown_addGroup hd g) doc.groups hstart
  have hhosts := Draft.grown_foldl (fun h hd => Draft.grown_addHost hd h) doc.hosts hgroups
  have hinstances := Draft.grown_foldl (fun i hd => Draft.grown_addInstance hd i) doc.instances hhosts
  have hwithin := Draft.grown_foldl (fun g hd => Draft.grown_settleGroup hd g) doc.groups hinstances
  have hwithin' := Draft.grown_foldl (fun h hd => Draft.grown_settleHost hd h) doc.hosts hwithin
  have hwithin'' := Draft.grown_foldl (fun i hd => Draft.grown_settleInstance hd i) doc.instances
    hwithin'
  have hon := Draft.grown_foldl (fun i hd => Draft.grown_lodge hd i) doc.instances hwithin''
  exact Draft.grown_foldl (fun e hd => Draft.grown_addSystem hd e) doc.systems hon

end Document

/-! ### Built sessions -/

namespace Session

variable {s : Session}

theorem leads_call (c : Call) (h : c.Fits s) : Leads s (c.run s) := by
  cases c with
  | step t => exact .step t h
  | placeAllOn k instances => exact leads_placeAllOn h.1 h.2
  | connect usage source target => exact leads_connect usage h.1 h.2
  | modifyAll l ms => exact leads_modifyAll h ms
  | applyLabels ls => exact leads_applyLabels h
  | declare doc => exact (doc.grown_declare s).leads

theorem leads_calls : ∀ {cs : List Call} {s : Session}, Call.AllFit s cs →
    Leads s (cs.foldl Call.run s)
  | [], s, _ => .refl s
  | c :: _, _, h => (leads_call c h.1).trans (leads_calls h.2)

/-- What can be built can be built step by step. -/
theorem Built.reachable (h : s.Built) : s.Reachable := by
  induction h with
  | fresh theme => exact .fresh theme
  | call c _ hfits ih => exact (leads_call c hfits).reachable ih

theorem Built.sound (h : s.Built) : s.Sound := h.reachable.sound

/-- A group inside a named one, a host with two instances that took the place of one of them in the
    inner group, a third instance, and a chain of two links. -/
def nested : Session :=
  [.step (.newGroup (some "outer")), .step (.newGroup none), .step .newHost,
    .step (.newInstance "api"), .step (.newInstance "db"), .step (.newInstance "cache"),
    .step (.placeIn (.group ⟨1⟩) ⟨0⟩), .step (.placeIn (.inst ⟨0⟩) ⟨1⟩),
    .placeAllOn ⟨0⟩ [⟨0⟩, ⟨1⟩], .connect .exchange ⟨0⟩ ⟨2⟩,
    .step (.extend ⟨0⟩ ⟨1⟩)].foldl Call.run (.fresh .dark)

theorem nested_built : nested.Built := (Built.fresh .dark).foldl (by decide)

end Session

end Schematic
