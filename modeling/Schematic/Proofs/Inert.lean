import Schematic.Proofs.Dot.Tree
import Schematic.Proofs.Registration
import Schematic.Proofs.Session.Frame

/-! What a system does not reach is inert. A drawing of links shows the trees under the outermost nodes
    of the system and the links of its chains, and nothing else of the session. So whatever is made,
    linked, noted or put elsewhere outside those trees, system and drawing stay as they are. -/

namespace Schematic

namespace Session

/-- A new system of the links. -/
def systemOf (s : Session) (name : String) (ls : List LinkKey) : System :=
  (s.newSystem name).1.is (s.newSystem name).2 ls

/-- The DOT text of a new system of the links. -/
def drawingOf (s : Session) (name : String) (ls : List LinkKey) : String :=
  Dot.render (s.newSystem name).2 (s.systemOf name ls)

end Session

/-! ### Calls that reach nothing -/

/-- The step speaks of no link of the start and of no node in the trees under the roots, except that
    new links may have their ends there. -/
def Step.Inert (start : Session) (roots : List Node) (s : Session) : Step → Prop
  | .newInstance _ | .newHost | .newGroup _ | .newSystem _ | .link _ _ => True
  | .extend l _ | .modify l _ => ¬ start.HasLink l
  | .annotate i _ | .replicateInstance i => s.outermost (.inst i) ∉ roots
  | .replicateHost h => s.outermost (.host h) ∉ roots
  | .placeOn i h => s.outermost (.inst i) ∉ roots ∧ s.outermost (.host h) ∉ roots
  | .placeIn n g => s.outermost n ∉ roots ∧ s.outermost (.group g) ∉ roots
  | .setTheme _ => False

namespace Call

/-- So does the call. -/
def Inert (start : Session) (roots : List Node) (s : Session) : Call → Prop
  | .step t => t.Inert start roots s
  | .placeAllOn h is =>
    s.outermost (.host h) ∉ roots ∧ ∀ i ∈ is, s.outermost (.inst i) ∉ roots
  | .connect _ _ _ => True
  | .modifyAll l _ => ¬ start.HasLink l
  | .applyLabels ls => ∀ l ∈ ls, ∀ i ∈ l.targets, s.outermost (.inst i) ∉ roots
  | .declare _ => False

/-- Each call fits and is inert when its turn comes. -/
def AllInert (start : Session) (roots : List Node) : Session → List Call → Prop
  | _, [] => True
  | s, c :: cs => c.Fits s ∧ c.Inert start roots s ∧ AllInert start roots (c.run s) cs

section Decidable

variable (start : Session) (roots : List Node)

instance decidableInertStep (s : Session) : (t : Step) → Decidable (t.Inert start roots s)
  | .newInstance _ | .newHost | .newGroup _ | .newSystem _ | .link _ _ => .isTrue trivial
  | .extend l _ | .modify l _ => inferInstanceAs (Decidable (¬ start.HasLink l))
  | .annotate i _ | .replicateInstance i =>
    inferInstanceAs (Decidable (s.outermost (.inst i) ∉ roots))
  | .replicateHost h => inferInstanceAs (Decidable (s.outermost (.host h) ∉ roots))
  | .placeOn i h => inferInstanceAs
    (Decidable (s.outermost (.inst i) ∉ roots ∧ s.outermost (.host h) ∉ roots))
  | .placeIn n g =>
    inferInstanceAs (Decidable (s.outermost n ∉ roots ∧ s.outermost (.group g) ∉ roots))
  | .setTheme _ => .isFalse id

instance decidableInert (s : Session) : (c : Call) → Decidable (c.Inert start roots s)
  | .step t => decidableInertStep start roots s t
  | .placeAllOn h is => inferInstanceAs
    (Decidable (s.outermost (.host h) ∉ roots ∧ ∀ i ∈ is, s.outermost (.inst i) ∉ roots))
  | .connect _ _ _ => .isTrue trivial
  | .modifyAll l _ => inferInstanceAs (Decidable (¬ start.HasLink l))
  | .applyLabels ls => inferInstanceAs
    (Decidable (∀ l ∈ ls, ∀ i ∈ l.targets, s.outermost (.inst i) ∉ roots))
  | .declare _ => .isFalse id

instance decidableAllInert : (s : Session) → (cs : List Call) → Decidable (AllInert start roots s cs)
  | _, [] => .isTrue trivial
  | s, c :: cs =>
    @instDecidableAnd _ _ _ (@instDecidableAnd _ _ _ (decidableAllInert (c.run s) cs))

end Decidable

end Call

namespace Session

variable {s t u : Session} {roots : List Node}

/-! ### The drawing shows nothing else -/

theorem writeAll_congr {α : Type} {f g : α → Dot.Block} {pad : String} : ∀ {xs : List α},
    (∀ x ∈ xs, (f x).write t pad = (g x).write s pad) →
      Dot.writeAll t pad (xs.map f) = Dot.writeAll s pad (xs.map g)
  | [], _ => by simp [Dot.writeAll]
  | x :: xs, h => by
    rw [List.map_cons, Dot.writeAll, List.map_cons, Dot.writeAll, h x (List.mem_cons_self ..),
      writeAll_congr fun y hy => h y (List.mem_cons_of_mem _ hy)]

/-- A node under the roots is written as before, with everything inside it. -/
theorem Frames.write_block (h : Frames roots s t) (hs : s.Sound) (ht : t.Sound) (n : Node) :
    s.Under roots n → ∀ pad, (Dot.block t n).write t pad = (Dot.block s n).write s pad := by
  refine hs.inside_induction (p := fun n => s.Under roots n →
    ∀ pad, (Dot.block t n).write t pad = (Dot.block s n).write s pad) ?_ n
  intro n ih hn pad
  have hrecord := h.record? hn
  have hbody : Dot.writeAll t (pad ++ " ") ((t.inside n).map (Dot.block t)) =
      Dot.writeAll s (pad ++ " ") ((s.inside n).map (Dot.block s)) := by
    rw [inside_of_record hrecord]
    exact writeAll_congr fun m hm => ih m hm (hn.inside hs hm) _
  rw [Dot.block_eq ht, Dot.block_eq hs]
  cases n with
  | inst i => simp only [Dot.Block.write, Dot.writeLeaf, instance?_of_record hrecord, h.theme]
  | host k => simp only [Dot.Block.write, hbody, Dot.writeCluster, host?_of_record hrecord, h.theme]
  | group g => simp only [Dot.Block.write, hbody, Dot.writeCluster, group?_of_record hrecord, h.theme]

/-- A link is written by the idents of its ends. -/
theorem edgeBody_congr {l : Link} (htheme : t.theme = s.theme)
    (hsource : t.identOf? (.inst l.source) = s.identOf? (.inst l.source))
    (htarget : t.identOf? (.inst l.target) = s.identOf? (.inst l.target)) :
    Dot.edgeBody t l = Dot.edgeBody s l := by
  have hturns : Edge.turns t l = Edge.turns s l := by simp only [Edge.turns, hsource, htarget]
  have hedge : Edge.ofLink t l = Edge.ofLink s l := by simp only [Edge.ofLink, hturns]
  have hname : ∀ i, i = l.source ∨ i = l.target → Dot.instanceName t i = Dot.instanceName s i := by
    rintro i (rfl | rfl)
    · rw [Dot.instanceName, hsource, Dot.instanceName]
    · rw [Dot.instanceName, htarget, Dot.instanceName]
  have htail : (Edge.ofLink s l).tail = l.source ∨ (Edge.ofLink s l).tail = l.target := by
    simp only [Edge.ofLink]
    cases Edge.turns s l
    · exact .inl rfl
    · exact .inr rfl
  have hhead : (Edge.ofLink s l).head = l.source ∨ (Edge.ofLink s l).head = l.target := by
    simp only [Edge.ofLink]
    cases Edge.turns s l
    · exact .inr rfl
    · exact .inl rfl
  simp only [Dot.edgeBody, hedge, htheme, hname _ htail, hname _ hhead]

/-- A system whose trees stay as they are is drawn as before. -/
theorem Frames.render {sys : System} (h : Frames sys.nodes s t) (hs : s.Sound) (ht : t.Sound)
    (hsys : sys.Rooted s) : Dot.render t sys = Dot.render s sys := by
  have hunder : ∀ r ∈ sys.nodes, s.Under sys.nodes r := fun r hr => by
    obtain ⟨hin, hroot⟩ := hsys.root r hr
    exact ⟨hin, by rwa [hs.outermost_of_root hroot]⟩
  have hnodes : Dot.writeAll t " " (sys.nodes.map (Dot.block t)) =
      Dot.writeAll s " " (sys.nodes.map (Dot.block s)) :=
    writeAll_congr fun r hr => h.write_block hs ht r (hunder r hr) " "
  have hlinks : sys.links.map (Dot.writeLink t " ") = sys.links.map (Dot.writeLink s " ") := by
    refine List.map_congr_left fun l hl => ?_
    obtain ⟨link, hlink, hsource, htarget⟩ := hsys.ends l hl
    have hident : ∀ i, s.HasNode (.inst i) → s.outermost (.inst i) ∈ sys.nodes →
        t.identOf? (.inst i) = s.identOf? (.inst i) := fun i hi hout => by
      rw [identOf?_eq, h.record? ⟨hi, hout⟩, identOf?_eq]
    simp only [Dot.writeLink, h.link? (hasLink_iff.mpr ⟨link, hlink⟩), hlink]
    rw [edgeBody_congr h.theme (hident _ (hs.linked.source hlink) hsource)
      (hident _ (hs.linked.target hlink) htarget)]
  simp only [Dot.render, Dot.body, h.theme, hnodes, hlinks]

/-- The chains of links that were there have the members and the ends that they had. -/
theorem Frames.is {ident : Ident} (ident' : Ident) {name : String} {ls : List LinkKey}
    (hs : s.Sound) (ht : t.Sound) (hls : ∀ l ∈ ls, s.HasLink l)
    (h : Frames (System.is { ident, name } s ls).nodes s t) :
    (System.is { ident := ident', name } t ls).nodes = (System.is { ident, name } s ls).nodes ∧
      (System.is { ident := ident', name } t ls).links = (System.is { ident, name } s ls).links := by
  have hrooted : (System.is { ident, name } s ls).Rooted s :=
    ((System.Made.new ident name).is ls hls).rooted hs
  have hchains : t.chainsOf ls = s.chainsOf ls := by
    rw [chainsOf, chainsOf]
    congr 1
    refine List.filterMap_congr fun l hl => ?_
    rw [chainOf?, h.link? (hls l hl), chainOf?]
  have hmembers : (s.chainsOf ls).flatMap t.chain = (s.chainsOf ls).flatMap s.chain := by
    refine List.flatMap_congr fun c hc => h.chain ?_
    obtain ⟨l, -, hl⟩ := List.mem_filterMap.mp (List.mem_eraseDups.mp hc)
    obtain ⟨link, hlink, rfl⟩ := Option.map_eq_some_iff.mp hl
    exact hs.linked.hasChain hlink
  have hends : ((s.chainsOf ls).flatMap s.chain).flatMap t.ends =
      ((s.chainsOf ls).flatMap s.chain).flatMap s.ends := by
    refine List.flatMap_congr fun l hl => ?_
    rw [System.is_new hs.linked] at h hrooted
    obtain ⟨link, hlink, hsource, htarget⟩ := hrooted.ends l hl
    have hin : s.HasNode (.inst link.source) := hs.linked.source hlink
    have hin' : s.HasNode (.inst link.target) := hs.linked.target hlink
    simp only [ends, h.link? (hasLink_iff.mpr ⟨link, hlink⟩), hlink,
      h.outermost hs ht ⟨hin, hsource⟩, h.outermost hs ht ⟨hin', htarget⟩]
  rw [System.is_new hs.linked, System.is_new ht.linked]
  simp only [hchains, hmembers, hends, and_self]

/-! ### Inert calls -/

/-- The node is one of the session and in none of the trees of the roots. -/
def Apart (s : Session) (roots : List Node) (n : Node) : Prop :=
  s.HasNode n ∧ s.outermost n ∉ roots

/-- What is apart now was so from the start, or is new. -/
theorem Frames.not_under (h : Frames roots s t) (hs : s.Sound) (ht : t.Sound) {n : Node}
    (hn : t.Apart roots n) : ¬ s.Under roots n := fun hunder =>
  hn.2 (h.outermost hs ht hunder ▸ hunder.2)

theorem Frames.placeIn (h : Frames roots s t) (hs : s.Sound) (ht : t.Sound) {n : Node} {g : GroupKey}
    (hn : t.Apart roots n) (hg : t.Apart roots (.group g)) : Frames roots s (t.placeIn n g) := by
  have hstand : t.outermost (t.standIn n) = t.outermost n := by
    cases n with
    | inst i =>
      cases hi : t.hostOf? i with
      | none => simp only [standIn, hi]
      | some k => simp only [standIn, hi, ht.outermost_of_outer (outer?_hosted hi)]
    | host k => rfl
    | group k => rfl
  have hin := hasNode_standIn ht.coherent hn.1
  refine h.edits (.placeIn n g) fun m hm => h.not_under hs ht ?_
  rcases hm with rfl | rfl | ⟨k, hk, rfl⟩
  · exact ⟨hin, hstand ▸ hn.2⟩
  · exact hg
  · have ho := (outer?_eq_group_iff ht.coherent).mpr hk
    exact ⟨hasNode_outer ht.coherent ho, ht.outermost_of_outer ho ▸ hstand ▸ hn.2⟩

theorem Frames.placeOn (h : Frames roots s t) (hs : s.Sound) (ht : t.Sound) {i : InstanceKey}
    {k : HostKey} (hi : t.Apart roots (.inst i)) (hk : t.Apart roots (.host k)) :
    Frames roots s (t.placeOn i k) := by
  have hout : ∀ {n o}, t.Apart roots n → t.outer? n = some o → t.Apart roots o := fun hn ho =>
    ⟨hasNode_outer ht.coherent ho, ht.outermost_of_outer ho ▸ hn.2⟩
  refine h.edits (.placeOn i k) fun m hm => h.not_under hs ht ?_
  rcases hm with rfl | rfl | ⟨k', hk', rfl⟩ | ⟨n, g, rfl | rfl, hg, rfl⟩
  · exact hi
  · exact hk
  · exact hout hi (outer?_hosted hk')
  · exact hout hi ((outer?_eq_group_iff ht.coherent).mpr hg)
  · exact hout hk ((outer?_eq_group_iff ht.coherent).mpr hg)

/-- Some steps lead from `s` to `t` that leave the trees under the roots alone. -/
structure Spares (roots : List Node) (s t : Session) : Prop where
  leads : Leads s t
  frames : Frames roots s t

section Inert

variable (hs : s.Reachable)
include hs

theorem Spares.sound (h : Spares roots s t) : t.Sound := (h.leads.reachable hs).sound

/-- An inert step leaves the trees alone. -/
theorem Spares.step (h : Spares roots s t) (step : Step) (hfits : step.Fits t)
    (hinert : step.Inert s roots t) : Spares roots s (step.run t) := by
  refine ⟨h.leads.trans (.step step hfits), ?_⟩
  have hframes := h.frames
  have ht := h.sound hs
  have hs := hs.sound
  have hgrows := h.leads.grows
  have hnew : ∀ {n : Node}, ¬ t.HasNode n → ¬ s.HasNode n := fun hn hold => hn (hgrows.hasNode hold)
  have htouched : ∀ {n : Node}, t.Apart roots n → ∀ m, m = n → ¬ s.Under roots m := by
    rintro n hn _ rfl
    exact hframes.not_under hs ht hn
  cases step with
  | newInstance name =>
    exact hframes.newNode rfl rfl rfl (record?_newInstance name) (hnew (Nat.lt_irrefl _))
  | newHost => exact hframes.newNode rfl rfl rfl record?_newHost (hnew (Nat.lt_irrefl _))
  | newGroup name =>
    exact hframes.newNode rfl rfl rfl (record?_newGroup name) (hnew (Nat.lt_irrefl _))
  | newSystem name => exact hframes.congr rfl rfl rfl fun n _ => by cases n <;> rfl
  | setTheme theme => exact hinert.elim
  | annotate i text => exact hframes.edits (.annotate i text) (htouched ⟨hfits, hinert⟩)
  | replicateInstance i => exact hframes.edits (.replicateInstance i) (htouched ⟨hfits, hinert⟩)
  | replicateHost k => exact hframes.edits (.replicateHost k) (htouched ⟨hfits, hinert⟩)
  | placeOn i k => exact hframes.placeOn hs ht ⟨hfits.1, hinert.1⟩ ⟨hfits.2, hinert.2⟩
  | placeIn n g => exact hframes.placeIn hs ht ⟨hfits.1, hinert.1⟩ ⟨hfits.2, hinert.2⟩
  | link source target => exact hframes.newLink source target (by rintro _ ⟨⟩)
  | extend l next =>
    obtain ⟨link, hlink⟩ := hasLink_iff.mp hfits.1
    rw [Step.run, extend, hlink]
    refine hframes.newLink _ _ ?_
    rintro _ ⟨⟩
    exact ⟨ht.linked.hasChain hlink, hframes.apart hlink hinert⟩
  | modify l m => exact hframes.modify hinert m

/-- What is apart stays apart. -/
theorem Apart.mono (hroots : s.AreRoots roots) {n : Node} (hn : t.Apart roots n)
    (h : Spares roots s t) (h' : Spares roots s u) (hleads : Leads t u) : u.Apart roots n :=
  ⟨hleads.grows.hasNode hn.1, fun hout => h.frames.not_under hs.sound (h.sound hs) hn
    (h'.frames.under hs.sound (h'.sound hs) hroots hout)⟩

omit hs in
/-- Several steps, one list entry after the other, where what each entry needs is kept. -/
theorem Spares.foldl {α : Type} {f : Session → α → Session} {p : Session → α → Prop}
    (hf : ∀ {t a}, Spares roots s t → p t a → Spares roots s (f t a) ∧ Leads t (f t a))
    (hmono : ∀ {t u a}, Spares roots s t → Spares roots s u → Leads t u → p t a → p u a) :
    ∀ {as : List α} {t : Session}, Spares roots s t → (∀ a ∈ as, p t a) →
      Spares roots s (as.foldl f t) ∧ Leads t (as.foldl f t)
  | [], t, h, _ => ⟨h, .refl t⟩
  | a :: as, t, h, hp => by
    obtain ⟨hspares, hleads⟩ := hf h (hp a (List.mem_cons_self ..))
    have hlater : ∀ b ∈ as, p (f t a) b := fun b hb =>
      hmono h hspares hleads (hp b (List.mem_cons_of_mem _ hb))
    obtain ⟨hrest, hleads'⟩ := Spares.foldl (f := f) (p := p) hf hmono hspares hlater
    rw [List.foldl_cons]
    exact ⟨hrest, hleads.trans hleads'⟩

theorem Spares.modifyAll (h : Spares roots s t) {l : LinkKey} (hl : t.HasLink l)
    (hnew : ¬ s.HasLink l) (ms : List Modifier) : Spares roots s (t.modifyAll l ms) :=
  (Spares.foldl (p := fun t _ => t.HasLink l)
    (fun {_ m} h hl => ⟨h.step hs (.modify l m) hl hnew, .step (.modify l m) hl⟩)
    (fun _ _ hleads hl => hleads.grows.hasLink hl) h fun _ _ => hl).1

theorem Spares.placeAllOn (hroots : s.AreRoots roots) (h : Spares roots s t) {k : HostKey}
    {is : List InstanceKey} (hk : t.Apart roots (.host k)) (his : ∀ i ∈ is, t.Apart roots (.inst i)) :
    Spares roots s (t.placeAllOn k is) := by
  refine (Spares.foldl (p := fun t i => t.Apart roots (.inst i) ∧ t.Apart roots (.host k))
    ?_ ?_ h fun i hi => ⟨his i hi, hk⟩).1
  · intro t i h hp
    have hfits : (Step.placeOn i k).Fits t := ⟨hp.1.1, hp.2.1⟩
    exact ⟨h.step hs _ hfits ⟨hp.1.2, hp.2.2⟩, .step _ hfits⟩
  · intro t u i h h' hleads hp
    exact ⟨hp.1.mono hs hroots h h' hleads, hp.2.mono hs hroots h h' hleads⟩

theorem Spares.applyLabels (hroots : s.AreRoots roots) (h : Spares roots s t) {ls : List Label}
    (hls : ∀ l ∈ ls, ∀ i ∈ l.targets, t.Apart roots (.inst i)) :
    Spares roots s (t.applyLabels ls) := by
  have hmono : ∀ {t u i}, Spares roots s t → Spares roots s u → Leads t u →
      t.Apart roots (.inst i) → u.Apart roots (.inst i) := fun h h' hleads hi =>
    hi.mono hs hroots h h' hleads
  refine (Spares.foldl (p := fun t l => ∀ i ∈ l.targets, t.Apart roots (.inst i)) ?_ ?_ h hls).1
  · intro t l h hl
    refine Spares.foldl (p := fun t i => t.Apart roots (.inst i)) ?_ hmono h hl
    intro t i h hi
    exact ⟨h.step hs (.annotate i l.text) hi.1 hi.2, .step (.annotate i l.text) hi.1⟩
  · intro t u l h h' hleads hl i hi
    exact hmono h h' hleads (hl i hi)

/-- So does an inert call. -/
theorem Spares.call (hroots : s.AreRoots roots) (h : Spares roots s t) {c : Call} (hfits : c.Fits t)
    (hinert : c.Inert s roots t) : Spares roots s (c.run t) := by
  cases c with
  | step t => exact h.step hs t hfits hinert
  | placeAllOn k is =>
    exact h.placeAllOn hs hroots ⟨hfits.1, hinert.1⟩ fun i hi => ⟨hfits.2 i hi, hinert.2 i hi⟩
  | connect usage source target =>
    have hlink := h.step hs (.link source target) hfits trivial
    refine hlink.modifyAll hs (hasLink_newLink source target none) ?_ usage.modifiers
    rw [newLink_fst]
    exact fun hl => Nat.lt_irrefl _ (h.frames.hasLink hl)
  | modifyAll l ms => exact h.modifyAll hs hfits hinert ms
  | applyLabels ls =>
    exact h.applyLabels hs hroots fun l hl i hi => ⟨hfits l hl i hi, hinert l hl i hi⟩
  | declare doc => exact hinert.elim

/-- So do inert calls, one after the other. -/
theorem Spares.calls (hroots : s.AreRoots roots) : ∀ {cs : List Call} {t : Session},
    Spares roots s t → Call.AllInert s roots t cs → Spares roots s (cs.foldl Call.run t)
  | [], _, h, _ => h
  | _ :: _, _, h, hcs => by
    rw [List.foldl_cons]
    exact Spares.calls hroots (h.call hs hroots hcs.1 hcs.2.1) hcs.2.2

/-- A new system of links that were there is the one that it was, and so is its drawing. -/
theorem Spares.drawing {ident : Ident} {name : String} {ls : List LinkKey}
    (hls : ∀ l ∈ ls, s.HasLink l) (h : Spares (System.is { ident, name } s ls).nodes s t) :
    (t.systemOf name ls).nodes = (System.is { ident, name } s ls).nodes ∧
      t.drawingOf name ls = Dot.render s (System.is { ident, name } s ls) := by
  have hnew := h.step hs (.newSystem name) trivial trivial
  have ht := hnew.sound hs
  obtain ⟨hnodes, hlinks⟩ := Frames.is (t.newSystem name).1.ident hs.sound ht hls hnew.frames
  have hrooted := ((System.Made.new ident name).is ls hls).rooted hs.sound
  refine ⟨hnodes, ?_⟩
  have hname : ∀ {u : Session} (ident : Ident), u.Linked →
      (System.is { ident, name } u ls).name = name := fun ident hu => by rw [System.is_new hu]
  rw [drawingOf, ← hnew.frames.render hs.sound ht hrooted]
  exact System.render_congr ((hname _ ht.linked).trans (hname _ hs.sound.linked).symm) hnodes hlinks

end Inert

/-- No inert calls change the drawing of a system of links: they may make elements, declare links
    between any instances and go on with these, and note, mark and place what is in none of the
    system's trees at that moment. -/
theorem inert_calls_keep_drawing {s : Session} (hs : s.Built) (name : String) {ls : List LinkKey}
    (hls : ∀ l ∈ ls, s.HasLink l) {cs : List Call}
    (hcs : Call.AllInert s (s.systemOf name ls).nodes s cs) :
    (cs.foldl Call.run s).drawingOf name ls = s.drawingOf name ls := by
  have hrooted := ((System.Made.new (s.newSystem name).1.ident name).is ls hls).rooted hs.sound
  have hself : Spares (System.is { ident := (s.newSystem name).1.ident, name } s ls).nodes s s :=
    ⟨.refl s, .refl s⟩
  obtain ⟨hnodes, hdrawing⟩ := Spares.drawing hs.reachable hls hself
  rw [hnodes] at hcs
  rw [hdrawing]
  exact (Spares.drawing hs.reachable hls
    (Spares.calls hs.reachable hrooted.root hself hcs)).2

/-- Calls around the nested session: a host of its own, with an instance that joins a group and is
    linked with what is drawn, forth and back. -/
def around : List Call :=
  [.step (.newInstance "log"), .step .newHost, .step (.newGroup (some "ops")),
    .placeAllOn ⟨1⟩ [⟨3⟩], .step (.placeIn (.inst ⟨3⟩) ⟨2⟩), .step (.replicateHost ⟨1⟩),
    .connect .exchange ⟨3⟩ ⟨0⟩, .step (.extend ⟨2⟩ ⟨3⟩), .modifyAll ⟨3⟩ [.configuration],
    .applyLabels [⟨[⟨3⟩], "all of it"⟩], .step (.newSystem "logs")]

/-- They leave the drawing of the nested links as it is. -/
theorem around_keeps_drawing : nested.Built ∧ (∀ l ∈ [LinkKey.mk 0], nested.HasLink l) ∧
    Call.AllInert nested (nested.systemOf "nested" [⟨0⟩]).nodes nested around ∧
    (around.foldl Call.run nested).drawingOf "nested" [⟨0⟩] = nested.drawingOf "nested" [⟨0⟩] := by
  have hlinks : ∀ l ∈ [LinkKey.mk 0], nested.HasLink l := by decide
  have hinert : Call.AllInert nested (nested.systemOf "nested" [⟨0⟩]).nodes nested around := by decide
  exact ⟨nested_built, hlinks, hinert, inert_calls_keep_drawing nested_built "nested" hlinks hinert⟩

end Session

end Schematic
