import Mathlib.Data.List.Induction
import Schematic.Proofs.Builder
import Schematic.Proofs.Session.Paths

/-! What modifiers come to, however many there are and in whatever order. A mark is there when it was there
    before or is said at all; the label is the last one that is said. Only `single` and `bidirectional` go
    against each other: each says anew whether the link stands for many, and the last of them counts. -/

namespace Schematic

namespace Modifier

/-- The modifier says whether the link stands for many. -/
def settlesMany : Modifier → Bool
  | .single | .bidirectional => true
  | _ => false

/-- What a modifier says about that; `many` says whether one of the ends stands for many. -/
def many? (many : Bool) : Modifier → Option Bool
  | .single => some false
  | .bidirectional => some many
  | _ => none

/-- The label that a modifier gives. -/
def text? : Modifier → Option String
  | .label text => some text
  | _ => none

/-- Only `single` and `bidirectional` say something. -/
theorem filterMap_many? (many : Bool) (ms : List Modifier) :
    (ms.filter settlesMany).filterMap (many? many) = ms.filterMap (many? many) := by
  rw [List.filterMap_filter]
  refine List.filterMap_congr fun m _ => ?_
  cases m <;> rfl

end Modifier

namespace Session

/-- `new` is the link that modifiers make of `old` in a session, one after the other. -/
structure Settles (s : Session) (ms : List Modifier) (old new : Link) : Prop where
  ident : new.ident = old.ident
  source : new.source = old.source
  target : new.target = old.target
  chain : new.chain = old.chain
  bidirectional : new.bidirectional = true ↔ old.bidirectional = true ∨ .bidirectional ∈ ms
  configuration : new.configuration = true ↔ old.configuration = true ∨ .configuration ∈ ms
  creation : new.creation = true ↔ old.creation = true ∨ .creation ∈ ms
  dynamic : new.dynamic = true ↔ old.dynamic = true ∨ .dynamic ∈ ms
  /-- The last label that is said, or the old one. -/
  label : new.label = (ms.filterMap Modifier.text?).getLast?.or old.label
  /-- What is said last about standing for many, or what was. -/
  multiple : new.multiple = (ms.filterMap (Modifier.many?
    (s.isMany old.source || s.isMany old.target))).getLast?.getD old.multiple

variable {s : Session} {ms ms' : List Modifier} {old new link : Link}

namespace Settles

theorem nothing (link : Link) : Settles s [] link link := by
  constructor <;> simp

/-- One modifier more. -/
theorem concat (h : Settles s ms old new) (m : Modifier) :
    Settles s (ms ++ [m]) old (m.apply (s.touchesMany new) new) := by
  obtain ⟨hsource, htarget, hchain⟩ := apply_ends (s.touchesMany new) new m
  have hmany : s.touchesMany new = (s.isMany old.source || s.isMany old.target) := by
    rw [touchesMany, h.source, h.target]
  constructor
  · cases m <;> exact h.ident
  · rw [hsource, h.source]
  · rw [htarget, h.target]
  · rw [hchain, h.chain]
  · cases m <;> simp [Modifier.apply, h.bidirectional]
  · cases m <;> simp [Modifier.apply, h.configuration]
  · cases m <;> simp [Modifier.apply, h.creation]
  · cases m <;> simp [Modifier.apply, h.dynamic]
  · cases m <;> simp [Modifier.apply, Modifier.text?, h.label]
  · cases m <;> simp [Modifier.apply, Modifier.many?, h.multiple, hmany]

/-- Several modifiers, one after the other. -/
theorem marked (s : Session) (ms : List Modifier) (link : Link) :
    Settles s ms link (s.marked ms link) := by
  induction ms using List.reverseRecOn with
  | nil => exact nothing link
  | append_singleton ms m ih =>
    rw [Session.marked, List.foldl_append, List.foldl_cons, List.foldl_nil]
    exact ih.concat m

/-- There is only one such link. -/
theorem unique (h : Settles s ms old new) (h' : Settles s ms old link) : new = link := by
  obtain ⟨⟩ := new
  obtain ⟨⟩ := link
  simp only [Link.mk.injEq]
  exact ⟨h.ident.trans h'.ident.symm, h.source.trans h'.source.symm, h.target.trans h'.target.symm,
    h.chain.trans h'.chain.symm, h.label.trans h'.label.symm,
    Bool.eq_iff_iff.mpr (h.bidirectional.trans h'.bidirectional.symm),
    Bool.eq_iff_iff.mpr (h.configuration.trans h'.configuration.symm),
    Bool.eq_iff_iff.mpr (h.creation.trans h'.creation.symm),
    Bool.eq_iff_iff.mpr (h.dynamic.trans h'.dynamic.symm), h.multiple.trans h'.multiple.symm⟩

/-- Whatever the order, only what is said at all and what is said last counts. -/
theorem reorder (h : Settles s ms old new) (hperm : ms.Perm ms')
    (hmany : ms.filter Modifier.settlesMany = ms'.filter Modifier.settlesMany)
    (htext : ms.filterMap Modifier.text? = ms'.filterMap Modifier.text?) : Settles s ms' old new where
  ident := h.ident
  source := h.source
  target := h.target
  chain := h.chain
  bidirectional := by rw [h.bidirectional, hperm.mem_iff]
  configuration := by rw [h.configuration, hperm.mem_iff]
  creation := by rw [h.creation, hperm.mem_iff]
  dynamic := by rw [h.dynamic, hperm.mem_iff]
  label := by rw [h.label, htext]
  multiple := by
    rw [h.multiple, ← Modifier.filterMap_many? _ ms, hmany, Modifier.filterMap_many?]

/-- Saying all of it once more changes nothing. -/
theorem again (h : Settles s ms old new) : Settles s (ms ++ ms) old new where
  ident := h.ident
  source := h.source
  target := h.target
  chain := h.chain
  bidirectional := by rw [h.bidirectional, List.mem_append, or_self]
  configuration := by rw [h.configuration, List.mem_append, or_self]
  creation := by rw [h.creation, List.mem_append, or_self]
  dynamic := by rw [h.dynamic, List.mem_append, or_self]
  label := by rw [h.label, List.filterMap_append, List.getLast?_append, Option.or_self]
  multiple := by rw [h.multiple, List.filterMap_append, List.getLast?_append, Option.or_self]

end Settles

/-! ### Links of a session -/

/-- A link as it is made: it stands for many when its target does at this moment, and nothing is said about
    it. -/
def unmarked (s : Session) (source target : InstanceKey) (chain : ChainKey) : Link :=
  { ident := (s.takeIdent "link").1, source, target, chain, multiple := s.isMany target }

/-- One link becomes what the modifiers make of it; all else stays. -/
theorem modifyAll_settles {l : LinkKey} (hl : s.link? l = some old) (ms : List Modifier) :
    ∃ new, Settles s ms old new ∧
      s.modifyAll l ms = { s with links := s.links.modify l.index fun _ => new } ∧
      ∀ k, (s.modifyAll l ms).link? k = if k = l then some new else s.link? k := by
  have hwhole : s.modifyAll l ms = s.modifyLink l fun _ => s.marked ms old := by
    rw [modifyAll_eq]
    refine modifyLink_congr fun link hlink => ?_
    rw [Option.some.inj (hl.symm.trans hlink)]
  refine ⟨s.marked ms old, Settles.marked s ms old, hwhole, fun k => ?_⟩
  rw [hwhole, link?_modifyLink]
  by_cases hk : k = l
  · rw [if_pos hk.symm, if_pos hk, hk, hl]
    rfl
  · rw [if_neg (Ne.symm hk), if_neg hk]

/-- Making a link does not change what stands for many. -/
theorem link?_modifyAll_newLink (source target : InstanceKey) (c : Option ChainKey)
    (ms : List Modifier) : ∃ new, Settles s ms (s.unmarked source target (c.getD s.nextChain)) new ∧
      ((s.newLink source target c).2.modifyAll (s.newLink source target c).1 ms).link?
        (s.newLink source target c).1 = some new := by
  have hmade : (s.newLink source target c).2.link? (s.newLink source target c).1 =
      some (s.unmarked source target (c.getD s.nextChain)) := by
    rw [newLink_fst, link?_newLink, if_pos rfl]
    rfl
  have hmany : (s.newLink source target c).2.isMany = s.isMany := by
    rw [newLink_eq]
    rfl
  obtain ⟨new, hnew, -, hlink⟩ := modifyAll_settles hmade ms
  refine ⟨new, { hnew with multiple := ?_ }, by rw [hlink, if_pos rfl]⟩
  rw [← hmany]
  exact hnew.multiple

theorem modifyAll_append (l : LinkKey) (ms ms' : List Modifier) :
    s.modifyAll l (ms ++ ms') = (s.modifyAll l ms).modifyAll l ms' := List.foldl_append

theorem modifyAll_again (l : LinkKey) (ms : List Modifier) :
    (s.modifyAll l ms).modifyAll l ms = s.modifyAll l ms := by
  rw [← modifyAll_append, modifyAll_eq, modifyAll_eq]
  exact modifyLink_congr fun link _ =>
    (Settles.marked s (ms ++ ms) link).unique (Settles.marked s ms link).again

theorem modifyAll_reorder (l : LinkKey) (hperm : ms.Perm ms')
    (hmany : ms.filter Modifier.settlesMany = ms'.filter Modifier.settlesMany)
    (htext : ms.filterMap Modifier.text? = ms'.filterMap Modifier.text?) :
    s.modifyAll l ms' = s.modifyAll l ms := by
  rw [modifyAll_eq, modifyAll_eq]
  exact modifyLink_congr fun link _ =>
    (Settles.marked s ms' link).unique ((Settles.marked s ms link).reorder hperm hmany htext)

/-- What is said about a link, be it an old one, one that is just made or one that goes on from another.
    Saying it all once more changes nothing, nor does another order, as long as the labels and what is said
    about standing for many stay in theirs. Marks that have two names mean the same by both. -/
theorem modifiers_settle (s : Session) :
    (∀ l old ms, s.link? l = some old → ∃ new, Settles s ms old new ∧
      s.modifyAll l ms = { s with links := s.links.modify l.index fun _ => new } ∧
      ∀ k, (s.modifyAll l ms).link? k = if k = l then some new else s.link? k) ∧
    (∀ usage source target ms, ∃ new,
      Settles s (Usage.modifiers usage ++ ms) (s.unmarked source target s.nextChain) new ∧
      ((s.connect usage source target).2.modifyAll (s.connect usage source target).1 ms).link?
        (s.connect usage source target).1 = some new) ∧
    (∀ l link next ms, s.link? l = some link → ∃ new,
      Settles s ms (s.unmarked link.target next link.chain) new ∧
      ((s.extend l next).2.modifyAll (s.extend l next).1 ms).link? (s.extend l next).1 = some new) ∧
    (∀ l ms, (s.modifyAll l ms).modifyAll l ms = s.modifyAll l ms) ∧
    (∀ l ms ms', List.Perm ms ms' →
      ms.filter Modifier.settlesMany = ms'.filter Modifier.settlesMany →
      ms.filterMap Modifier.text? = ms'.filterMap Modifier.text? →
      s.modifyAll l ms' = s.modifyAll l ms) ∧
    ∀ names ∈ [("configuration", "registry"), ("creation", "deploy"), ("dynamic", "discovered")],
      Modifier.ofName? names.1 = Modifier.ofName? names.2 := by
  refine ⟨fun l old ms hl => modifyAll_settles hl ms, fun usage source target ms => ?_,
    fun l link next ms hl => ?_, modifyAll_again, fun l ms ms' => modifyAll_reorder l, ?_⟩
  · have hconnect : (s.connect usage source target).2.modifyAll (s.connect usage source target).1 ms =
        (s.newLink source target none).2.modifyAll (s.newLink source target none).1
          (usage.modifiers ++ ms) := (modifyAll_append _ _ _).symm
    rw [hconnect]
    exact link?_modifyAll_newLink source target none (usage.modifiers ++ ms)
  · have hextend : s.extend l next = s.newLink link.target next (some link.chain) := by
      rw [extend, hl]
    rw [hextend]
    exact link?_modifyAll_newLink link.target next (some link.chain) ms
  · simp [Modifier.ofName?]

/-- Two instances, one of them on a host that stands for many, and a link to it. -/
def paired : Session :=
  [.step .newHost, .step (.newInstance "client"), .step (.newInstance "worker"),
    .step (.replicateHost ⟨0⟩), .step (.placeOn ⟨1⟩ ⟨0⟩), .connect .plain ⟨0⟩ ⟨1⟩].foldl Call.run
    (.fresh .dark)

/-- `single` and `bidirectional` undo each other, and a mark between them does not matter. -/
theorem paired_settles : paired.Built ∧ (paired.link? ⟨0⟩).map (·.multiple) = some true ∧
    (∃ new, (paired.modifyAll ⟨0⟩ [.bidirectional, .label "old", .single, .label "new"]).link? ⟨0⟩ =
      some new ∧ new.bidirectional = true ∧ new.label = some "new" ∧ new.multiple = false) ∧
    (∃ new, (paired.modifyAll ⟨0⟩ [.single, .dynamic, .bidirectional]).link? ⟨0⟩ = some new ∧
      new.dynamic = true ∧ new.multiple = true) ∧
    paired.modifyAll ⟨0⟩ [.dynamic, .single, .bidirectional] =
      paired.modifyAll ⟨0⟩ [.single, .dynamic, .bidirectional] := by
  have hbuilt : paired.Built := (Built.fresh .dark).foldl (by decide)
  obtain ⟨old, hold⟩ := hasLink_iff.mp (show paired.HasLink ⟨0⟩ by decide)
  have hmany : (paired.isMany old.source || paired.isMany old.target) = true := by
    have htarget : (paired.link? ⟨0⟩).any fun link => paired.isMany link.target := by decide
    rw [hold] at htarget
    rw [Bool.or_eq_true]
    exact .inr htarget
  obtain ⟨hsettle, -, -, -, hreorder, -⟩ := modifiers_settle paired
  obtain ⟨first, hfirst, -, hlink⟩ := hsettle ⟨0⟩ old
    [.bidirectional, .label "old", .single, .label "new"] hold
  obtain ⟨second, hsecond, -, hlink'⟩ := hsettle ⟨0⟩ old [.single, .dynamic, .bidirectional] hold
  refine ⟨hbuilt, by decide, ⟨first, by rw [hlink, if_pos rfl], ?_, ?_, ?_⟩,
    ⟨second, by rw [hlink', if_pos rfl], ?_, ?_⟩,
    hreorder ⟨0⟩ _ _ (.swap _ _ _) rfl rfl⟩
  · exact hfirst.bidirectional.mpr (.inr (by simp))
  · rw [hfirst.label]; rfl
  · rw [hfirst.multiple]; rfl
  · exact hsecond.dynamic.mpr (.inr (by simp))
  · rw [hsecond.multiple, hmany]; rfl

end Session

end Schematic
