import Mathlib.Data.List.Forall2
import Schematic.Document.Declaration
import Schematic.Proofs.Session.Notes

/-! Drawing a path. The links of a path are added one after the other to a chain of their own, each
    from one instance to the next and each with the marks of the entry, and only then the last one gets
    its label. Nothing else changes, so what a link shows about its ends is the same when it is made,
    when the path is done and when all paths are. -/

namespace Schematic

namespace Session

/-- `t` is `s` with links and chains added. -/
structure Appends (s t : Session) : Prop where
  instances : t.instances = s.instances
  hosts : t.hosts = s.hosts
  groups : t.groups = s.groups
  link? : ∀ {l}, s.HasLink l → t.link? l = s.link? l
  chain : ∀ {c}, s.HasChain c → t.chain c = s.chain c
  chains_size : s.chains.size ≤ t.chains.size

variable {s t u : Session}

namespace Appends

theorem refl (s : Session) : Appends s s :=
  ⟨rfl, rfl, rfl, fun _ => rfl, fun _ => rfl, Nat.le_refl _⟩

theorem hasLink (h : Appends s t) {l : LinkKey} (hl : s.HasLink l) : t.HasLink l := by
  rw [hasLink_iff, h.link? hl, ← hasLink_iff]
  exact hl

theorem hasChain (h : Appends s t) {c : ChainKey} (hc : s.HasChain c) : t.HasChain c :=
  Nat.lt_of_lt_of_le hc h.chains_size

theorem trans (h : Appends s t) (h' : Appends t u) : Appends s u where
  instances := h'.instances.trans h.instances
  hosts := h'.hosts.trans h.hosts
  groups := h'.groups.trans h.groups
  link? hl := (h'.link? (h.hasLink hl)).trans (h.link? hl)
  chain hc := (h'.chain (h.hasChain hc)).trans (h.chain hc)
  chains_size := Nat.le_trans h.chains_size h'.chains_size

/-- Links hold nothing. -/
theorem sameNesting (h : Appends s t) : SameNesting s t where
  groupOf n := by
    cases n with
    | inst i => rw [groupOf?, groupOf?, instance?, h.instances, instance?]
    | host k => rw [groupOf?, groupOf?, host?, h.hosts, host?]
    | group g => rw [groupOf?, groupOf?, group?, h.groups, group?]
  hostOf i := by rw [hostOf?, hostOf?, instance?, h.instances, instance?]
  children g := by rw [children, children, group?, h.groups, group?]
  residents k := by rw [residents, residents, host?, h.hosts, host?]

theorem isMany (h : Appends s t) (i : InstanceKey) : t.isMany i = s.isMany i := by
  have hinstance : t.instance? i = s.instance? i := by rw [instance?, h.instances, instance?]
  have hhost : t.host? = s.host? := funext fun k => by rw [host?, h.hosts, host?]
  simp only [Session.isMany, hinstance, hhost]

end Appends

/-! ### Marking a link -/

/-- What modifiers make of a link, one after the other. -/
def marked (s : Session) (ms : List Modifier) (link : Link) : Link :=
  ms.foldl (fun link m => m.apply (s.touchesMany link) link) link

/-- Only what becomes of the link itself counts. -/
theorem modifyLink_congr {l : LinkKey} {f g : Link → Link}
    (h : ∀ link, s.link? l = some link → f link = g link) : s.modifyLink l f = s.modifyLink l g := by
  have hlinks : s.links.modify l.index f = s.links.modify l.index g := by
    refine Array.ext_getElem? fun j => ?_
    rw [Array.getElem?_modify, Array.getElem?_modify]
    by_cases hj : l.index = j
    · subst hj
      rw [if_pos rfl, if_pos rfl]
      cases hlink : s.links[l.index]? with
      | none => rfl
      | some link => exact congrArg some (h link hlink)
    · rw [if_neg hj, if_neg hj]
  exact congrArg (fun links => { s with links }) hlinks

theorem modifyLink_self (l : LinkKey) : s.modifyLink l (fun link => link) = s := by
  have hlinks : s.links.modify l.index (fun link => link) = s.links := by
    refine Array.ext_getElem? fun j => ?_
    rw [Array.getElem?_modify]
    by_cases hj : l.index = j
    · rw [if_pos hj]; cases s.links[j]? <;> rfl
    · rw [if_neg hj]
  exact congrArg (fun links => { s with links }) hlinks

theorem modifyLink_modifyLink (l : LinkKey) (f g : Link → Link) :
    (s.modifyLink l f).modifyLink l g = s.modifyLink l fun link => g (f link) := by
  have hlinks : (s.links.modify l.index f).modify l.index g =
      s.links.modify l.index fun link => g (f link) := by
    refine Array.ext_getElem? fun j => ?_
    simp only [Array.getElem?_modify]
    by_cases hj : l.index = j
    · simp only [if_pos hj]; cases s.links[j]? <;> rfl
    · simp only [if_neg hj]
  exact congrArg (fun links => { s with links }) hlinks

/-- A modifier changes one link. -/
theorem modify_eq (l : LinkKey) (m : Modifier) :
    s.modify l m = s.modifyLink l fun link => m.apply (s.touchesMany link) link := by
  rw [modify]
  cases hl : s.link? l with
  | none =>
    refine (modifyLink_self l).symm.trans (modifyLink_congr fun link hlink => ?_)
    rw [hl] at hlink
    cases hlink
  | some link =>
    refine modifyLink_congr fun link' hlink => ?_
    rw [hl] at hlink
    cases hlink
    rfl

/-- So do several. -/
theorem modifyAll_eq (l : LinkKey) (ms : List Modifier) :
    s.modifyAll l ms = s.modifyLink l (s.marked ms) := by
  induction ms generalizing s with
  | nil => exact (modifyLink_self l).symm
  | cons m ms ih =>
    have hrest : s.modifyAll l (m :: ms) = (s.modify l m).modifyAll l ms := rfl
    have hmany : (s.modify l m).marked ms = s.marked ms := by rw [modify_eq]; rfl
    rw [hrest, ih, hmany, modify_eq, modifyLink_modifyLink]
    rfl

end Session

/-- A link of a path, before it gets a label: it joins two instances with the marks of the entry. It
    stands for many if its target does, and when it goes both ways also if its source does, unless the
    entry says otherwise. -/
def LinkEntry.drawn (entry : LinkEntry) (s : Session) (ident : Ident) (chain : ChainKey)
    (source target : InstanceKey) : Link :=
  { ident, source, target, chain
    bidirectional := entry.bidirectional
    configuration := entry.kind = .configuration
    creation := entry.kind = .creation
    dynamic := entry.dynamic
    multiple := !entry.single && (s.isMany target || entry.bidirectional && s.isMany source) }

theorem LinkEntry.marked_eq (entry : LinkEntry) (s : Session) (ident : Ident) (chain : ChainKey)
    (source target : InstanceKey) :
    s.marked entry.modifiers { ident, source, target, chain, multiple := s.isMany target } =
      entry.drawn s ident chain source target := by
  obtain ⟨path, kind, bidirectional, dynamic, single, label⟩ := entry
  cases kind <;> cases bidirectional <;> cases dynamic <;> cases single <;>
    simp [LinkEntry.modifiers, Session.marked, Modifier.apply, LinkEntry.drawn, Session.touchesMany,
      Bool.or_comm]

namespace Session

variable {s t u : Session}

/-! ### One link -/

/-- `s` with one more link, which has the marks of the entry. -/
def drawLink (s : Session) (entry : LinkEntry) (source target : InstanceKey)
    (c : Option ChainKey) : Session :=
  (s.newLink source target c).2.modifyAll s.nextLink entry.modifiers

section DrawLink

variable (entry : LinkEntry) (source target : InstanceKey) {c : Option ChainKey}

theorem drawLink_eq : s.drawLink entry source target c =
    (s.newLink source target c).2.modifyLink s.nextLink (s.marked entry.modifiers) := by
  rw [drawLink, modifyAll_eq]
  rfl

theorem link?_drawLink (l : LinkKey) : (s.drawLink entry source target c).link? l =
    if l = s.nextLink then
      some (entry.drawn s (s.takeIdent "link").1 (c.getD s.nextChain) source target)
    else s.link? l := by
  rw [drawLink_eq, link?_modifyLink, link?_newLink]
  by_cases hl : l = s.nextLink
  · rw [if_pos hl.symm, if_pos hl, if_pos hl]
    exact congrArg some (entry.marked_eq s _ _ source target)
  · rw [if_neg (Ne.symm hl), if_neg hl, if_neg hl]

theorem chain_drawLink (hc : ∀ k, c = some k → s.HasChain k) (k : ChainKey) :
    (s.drawLink entry source target c).chain k =
      s.chain k ++ if k = c.getD s.nextChain then [s.nextLink] else [] := by
  rw [drawLink_eq]
  exact chain_newLink source target hc k

theorem links_size_drawLink :
    (s.drawLink entry source target c).links.size = s.links.size + 1 := by
  rw [drawLink_eq, modifyLink, newLink_eq]
  simp

theorem chains_size_drawLink : (s.drawLink entry source target c).chains.size =
    s.chains.size + if c = none then 1 else 0 := by
  rw [drawLink_eq, modifyLink, newLink_eq]
  cases c <;> simp

/-- A link in a chain that `s` does not have is one that is added to `s`. -/
theorem Appends.drawLink (h : Appends s t) (hc : ∀ k, c = some k → t.HasChain k)
    (hnew : ¬ s.HasChain (c.getD t.nextChain)) :
    Appends s (t.drawLink entry source target c) where
  instances := by rw [drawLink_eq, newLink_eq]; exact h.instances
  hosts := by rw [drawLink_eq, newLink_eq]; exact h.hosts
  groups := by rw [drawLink_eq, newLink_eq]; exact h.groups
  link? {l} hl := by
    have hne : l ≠ t.nextLink := by
      rintro rfl
      exact Nat.lt_irrefl _ (h.hasLink hl)
    rw [link?_drawLink, if_neg hne, h.link? hl]
  chain {k} hk := by
    have hne : k ≠ c.getD t.nextChain := fun he => hnew (he ▸ hk)
    rw [chain_drawLink _ _ _ hc, if_neg hne, List.append_nil, h.chain hk]
  chains_size := by
    rw [chains_size_drawLink]
    exact Nat.le_add_right_of_le h.chains_size

end DrawLink

/-! ### One path -/

/-- `t` is `s` with one new chain, which draws the path so far. -/
structure Traces (s t : Session) (entry : LinkEntry) (path : List InstanceKey) : Prop where
  appends : Appends s t
  chains_size : t.chains.size = s.chains.size + 1
  links_size : t.links.size + 1 = s.links.size + path.length
  chain : t.chain s.nextChain = (List.range' s.links.size (path.length - 1)).map .mk
  link? : ∀ {j a b}, path[j]? = some a → path[j + 1]? = some b →
    ∃ ident, t.link? ⟨s.links.size + j⟩ = some (entry.drawn s ident s.nextChain a b)

theorem not_hasChain_nextChain : ¬ s.HasChain s.nextChain := Nat.lt_irrefl _

/-- A path of two instances. -/
theorem traces_drawLink (entry : LinkEntry) (first second : InstanceKey) :
    Traces s (s.drawLink entry first second none) entry [first, second] where
  appends := (Appends.refl s).drawLink _ _ _ (by rintro _ ⟨⟩) not_hasChain_nextChain
  chains_size := chains_size_drawLink ..
  links_size := by rw [links_size_drawLink]; rfl
  chain := by
    have hnone : s.chain s.nextChain = [] := by simp [Session.chain, nextChain]
    rw [chain_drawLink _ _ _ (by rintro _ ⟨⟩), hnone, Option.getD_none, if_pos rfl]
    rfl
  link? {j a b} ha hb := by
    cases j with
    | zero =>
      cases ha
      cases hb
      refine ⟨(s.takeIdent "link").1, ?_⟩
      rw [Nat.add_zero, ← nextLink, link?_drawLink, if_pos rfl]
      rfl
    | succ j => simp at hb

theorem Appends.drawn (h : Appends s t) (entry : LinkEntry) : entry.drawn t = entry.drawn s := by
  funext ident chain source target
  simp only [LinkEntry.drawn, h.isMany]

/-- A step of a path with one more instance is one of the path, or the one from its end. -/
theorem step_concat {path : List InstanceKey} {last next a b : InstanceKey} {j : Nat}
    (hlast : path.getLast? = some last) (ha : (path ++ [next])[j]? = some a)
    (hb : (path ++ [next])[j + 1]? = some b) :
    path[j]? = some a ∧ path[j + 1]? = some b ∨ j + 1 = path.length ∧ a = last ∧ b = next := by
  have hlen : j + 1 < path.length + 1 := by
    simpa using (List.getElem?_eq_some_iff.mp hb).1
  rw [List.getElem?_append, if_pos (by omega)] at ha
  by_cases hj : j + 1 < path.length
  · rw [List.getElem?_append, if_pos hj] at hb
    exact .inl ⟨ha, hb⟩
  · have hend : j + 1 = path.length := by omega
    rw [hend, List.getElem?_concat_length] at hb
    rw [show j = path.length - 1 by omega, ← List.getLast?_eq_getElem?, hlast] at ha
    exact .inr ⟨hend, (Option.some.inj ha).symm, (Option.some.inj hb).symm⟩

/-- A path with one more instance. -/
theorem Traces.drawLink {entry : LinkEntry} {path : List InstanceKey} {last : InstanceKey}
    (h : Traces s t entry path) (hlast : path.getLast? = some last) (next : InstanceKey) :
    Traces s (t.drawLink entry last next (some s.nextChain)) entry (path ++ [next]) := by
  have hlen : 0 < path.length := by
    rw [List.length_pos_iff]
    rintro rfl
    cases hlast
  have hchain : ∀ k, some s.nextChain = some k → t.HasChain k := by
    rintro _ ⟨⟩
    rw [HasChain, h.chains_size]
    exact Nat.lt_succ_self _
  have hsize := h.links_size
  have hsucc : (path ++ [next]).length = path.length + 1 := List.length_append
  refine ⟨h.appends.drawLink _ _ _ hchain not_hasChain_nextChain, ?_, ?_, ?_, fun {j a b} ha hb => ?_⟩
  · rw [chains_size_drawLink, if_neg (by simp)]
    exact h.chains_size
  · rw [links_size_drawLink, hsucc]
    omega
  · have hnext : t.nextLink = ⟨s.links.size + (path.length - 1)⟩ := by
      rw [nextLink, LinkKey.mk.injEq]; omega
    rw [chain_drawLink _ _ _ hchain, Option.getD_some, if_pos rfl, h.chain, hsucc,
      show path.length + 1 - 1 = path.length - 1 + 1 by omega, List.range'_1_concat,
      List.map_append, hnext]
    rfl
  · rw [link?_drawLink]
    obtain ⟨ha, hb⟩ | ⟨hj, rfl, rfl⟩ := step_concat hlast ha hb
    · obtain ⟨ident, hold⟩ := h.link? ha hb
      have hne : (⟨s.links.size + j⟩ : LinkKey) ≠ t.nextLink := by
        have hj := (List.getElem?_eq_some_iff.mp hb).1
        rw [nextLink, Ne, LinkKey.mk.injEq]
        omega
      exact ⟨ident, by rw [if_neg hne, hold]⟩
    · have hnext : (⟨s.links.size + j⟩ : LinkKey) = t.nextLink := by
        rw [nextLink, LinkKey.mk.injEq]; omega
      exact ⟨_, by rw [if_pos hnext, h.appends.drawn, Option.getD_some]⟩

/-- The key of the last link of a path. -/
def lastLink (s : Session) (path : List InstanceKey) : LinkKey := ⟨s.links.size + (path.length - 2)⟩

/-- A path of at least two instances goes on where its last link ends. -/
theorem Traces.extend_eq {entry : LinkEntry} {path : List InstanceKey} {last : InstanceKey}
    (h : Traces s t entry path) (hlen : 2 ≤ path.length) (hlast : path.getLast? = some last)
    (next : InstanceKey) :
    t.extend (s.lastLink path) next = t.newLink last next (some s.nextChain) := by
  rw [List.getLast?_eq_getElem?, show path.length - 1 = path.length - 2 + 1 by omega] at hlast
  obtain ⟨ident, hlink⟩ := h.link? (List.getElem?_eq_getElem (by omega)) hlast
  rw [extend, lastLink, hlink]
  rfl

/-- A path with more instances. -/
theorem Traces.extendAll {entry : LinkEntry} : ∀ (rest : List InstanceKey)
    {path : List InstanceKey} {t : Session},
    Traces s t entry path → 2 ≤ path.length →
    (t.extendAll entry.modifiers (s.lastLink path) rest).1 = s.lastLink (path ++ rest) ∧
      Traces s (t.extendAll entry.modifiers (s.lastLink path) rest).2 entry (path ++ rest)
  | [], path, t, h, _ => by
    rw [List.append_nil]
    exact ⟨rfl, h⟩
  | next :: rest, path, t, h, hlen => by
    obtain ⟨last, hlast⟩ : ∃ last, path.getLast? = some last :=
      Option.isSome_iff_exists.mp (List.getLast?_isSome.mpr (by rintro rfl; simp at hlen))
    have hkey : t.nextLink = s.lastLink (path ++ [next]) := by
      have := h.links_size
      rw [nextLink, lastLink, LinkKey.mk.injEq, List.length_append, List.length_singleton]
      omega
    have hrest := Traces.extendAll rest (h.drawLink hlast next)
      (by rw [List.length_append]; omega)
    rw [List.append_assoc, List.singleton_append, Session.drawLink, hkey] at hrest
    simp only [Session.extendAll, h.extend_eq hlen hlast, newLink_fst]
    rw [hkey]
    exact hrest

/-! ### What a drawn path looks like -/

/-- The links of a chain draw a path: one from each instance to the next, with the marks of the entry,
    and only the last one with its label. -/
structure Draws (t : Session) (entry : LinkEntry) (path : List InstanceKey) (c : ChainKey) :
    Prop where
  length : (t.chain c).length + 1 = path.length
  link? : ∀ {j l}, (t.chain c)[j]? = some l → ∃ a b ident,
    path[j]? = some a ∧ path[j + 1]? = some b ∧ t.link? l = some { entry.drawn t ident c a b with
      label := if j + 2 = path.length then entry.label else none }

/-- The link is the first of a chain that `s` did not have, and the chain draws the path. -/
def Heads (s t : Session) (entry : LinkEntry) (path : List InstanceKey) (head : LinkKey) : Prop :=
  ∃ c, ¬ s.HasChain c ∧ t.chainOf? head = some c ∧ (t.chain c).head? = some head ∧
    t.Draws entry path c

/-- `t` is `s` with just the chains that begin with the given links, in that order. -/
structure Adds (s t : Session) (heads : List LinkKey) : Prop where
  appends : Appends s t
  chains_size : t.chains.size = s.chains.size + heads.length
  chainOf? : heads.map t.chainOf? =
    (List.range' s.chains.size heads.length).map fun n => some (ChainKey.mk n)
  new : ∀ {l link}, t.link? l = some link → ¬ s.HasLink l → ¬ s.HasChain link.chain

/-- What is drawn stays as it is. -/
theorem Heads.mono {s' : Session} {entry : LinkEntry} {path : List InstanceKey} {head : LinkKey}
    (h : Heads s' t entry path head) (hs : ∀ {c}, s.HasChain c → s'.HasChain c)
    (ht : Appends t u) : Heads s u entry path head := by
  obtain ⟨c, hc, hhead, hfirst, hdraws⟩ := h
  have hmem : head ∈ t.chain c := List.mem_of_mem_head? hfirst
  have hchain : u.chain c = t.chain c := ht.chain (hasChain_of_member hmem)
  have hlink : ∀ {l link}, t.link? l = some link → u.link? l = some link := fun hl =>
    (ht.link? (hasLink_iff.mpr ⟨_, hl⟩)).trans hl
  refine ⟨c, fun hsc => hc (hs hsc), ?_, by rw [hchain]; exact hfirst, ?_⟩
  · obtain ⟨link, hl, hlc⟩ := Option.map_eq_some_iff.mp hhead
    rw [Session.chainOf?, hlink hl, Option.map_some, hlc]
  · constructor
    · rw [hchain]; exact hdraws.length
    · intro j l hl
      rw [hchain] at hl
      obtain ⟨a, b, ident, ha, hb, hlab⟩ := hdraws.link? hl
      exact ⟨a, b, ident, ha, hb, by rw [ht.drawn]; exact hlink hlab⟩

theorem Adds.nothing (s : Session) : Adds s s [] where
  appends := .refl s
  chains_size := rfl
  chainOf? := rfl
  new hl hnew := absurd (hasLink_iff.mpr ⟨_, hl⟩) hnew

theorem Adds.append {heads heads' : List LinkKey} (h : Adds s t heads) (h' : Adds t u heads') :
    Adds s u (heads ++ heads') where
  appends := h.appends.trans h'.appends
  chains_size := by rw [h'.chains_size, h.chains_size, List.length_append, Nat.add_assoc]
  chainOf? := by
    have hkeep : heads.map u.chainOf? = heads.map t.chainOf? := by
      refine List.map_congr_left fun l hl => ?_
      have hmem := List.mem_map_of_mem (f := t.chainOf?) hl
      rw [h.chainOf?, List.mem_map] at hmem
      obtain ⟨n, -, hn⟩ := hmem
      obtain ⟨link, hlink, -⟩ := Option.map_eq_some_iff.mp hn.symm
      rw [Session.chainOf?, h'.appends.link? (hasLink_iff.mpr ⟨link, hlink⟩), Session.chainOf?]
    rw [List.map_append, hkeep, h.chainOf?, h'.chainOf?, h.chains_size, List.length_append,
      ← List.range'_append_1, List.map_append]
  new {l link} hl hnew := by
    by_cases hmid : t.HasLink l
    · rw [h'.appends.link? hmid] at hl
      exact h.new hl hnew
    · exact fun hc => h'.new hl hmid (h.appends.hasChain hc)

/-- The last link of a path gets the label of its entry, if there is one. -/
def labelLast (t : Session) (entry : LinkEntry) (l : LinkKey) : Session :=
  match entry.label with
  | some text => t.modify l (.label text)
  | none => t

theorem link?_labelLast (entry : LinkEntry) (l k : LinkKey) :
    (t.labelLast entry l).link? k = (t.link? k).map fun link =>
      if k = l then { link with label := entry.label.or link.label } else link := by
  cases hlabel : entry.label with
  | none => by_cases h : k = l <;> simp [labelLast, hlabel, h]
  | some text =>
    rw [labelLast, hlabel]
    simp only
    rw [modify_eq, link?_modifyLink]
    by_cases h : l = k
    · subst h; simp [Modifier.apply]
    · simp [h, Ne.symm h]

theorem labelLast_frame (entry : LinkEntry) (l : LinkKey) :
    ∃ links, t.labelLast entry l = { t with links } ∧ links.size = t.links.size := by
  cases hlabel : entry.label with
  | none => exact ⟨t.links, by rw [labelLast, hlabel], rfl⟩
  | some text =>
    rw [labelLast, hlabel]
    simp only
    rw [modify_eq]
    exact ⟨_, rfl, Array.size_modify⟩

section Labelled

variable {entry : LinkEntry} {path : List InstanceKey}

theorem Appends.labelLast {l : LinkKey} (h : Appends s t) (hl : ¬ s.HasLink l) :
    Appends s (t.labelLast entry l) := by
  obtain ⟨links, hframe, -⟩ := labelLast_frame (t := t) entry l
  refine ⟨?_, ?_, ?_, fun {k} hk => ?_, fun {c} hc => ?_, ?_⟩
  · rw [hframe]; exact h.instances
  · rw [hframe]; exact h.hosts
  · rw [hframe]; exact h.groups
  · have hne : k ≠ l := fun he => hl (he ▸ hk)
    rw [link?_labelLast, h.link? hk]
    simp only [if_neg hne, Option.map_id']
  · rw [hframe]; exact h.chain hc
  · rw [hframe]; exact h.chains_size

namespace Traces

variable (h : Traces s t entry path)

include h

theorem link?_labelLast {j : Nat} {a b : InstanceKey} (ha : path[j]? = some a)
    (hb : path[j + 1]? = some b) :
    ∃ ident, (t.labelLast entry (s.lastLink path)).link? ⟨s.links.size + j⟩ =
      some { entry.drawn s ident s.nextChain a b with
        label := if j + 2 = path.length then entry.label else none } := by
  obtain ⟨ident, hl⟩ := h.link? ha hb
  have hkey : (⟨s.links.size + j⟩ : LinkKey) = s.lastLink path ↔ j + 2 = path.length := by
    have hj := (List.getElem?_eq_some_iff.mp hb).1
    rw [lastLink, LinkKey.mk.injEq]
    omega
  refine ⟨ident, ?_⟩
  rw [Session.link?_labelLast, hl, Option.map_some]
  by_cases hj : j + 2 = path.length
  · rw [if_pos (hkey.mpr hj), if_pos hj]
    simp [LinkEntry.drawn]
  · rw [if_neg (mt hkey.mp hj), if_neg hj]
    rfl

theorem chain_labelLast (l : LinkKey) : (t.labelLast entry l).chain s.nextChain =
    (List.range' s.links.size (path.length - 1)).map .mk := by
  obtain ⟨links, hframe, -⟩ := labelLast_frame (t := t) entry l
  rw [hframe]
  exact h.chain

theorem appends_labelLast : Appends s (t.labelLast entry (s.lastLink path)) :=
  h.appends.labelLast (Nat.not_lt.mpr (Nat.le_add_right ..))

/-- A link that is new is between two instances of the path. -/
theorem exists_of_new {l : LinkKey} (hl : t.HasLink l) (hnew : ¬ s.HasLink l) :
    ∃ j, j + 1 < path.length ∧ l = ⟨s.links.size + j⟩ := by
  have hsize := h.links_size
  rw [HasLink] at hl hnew
  refine ⟨l.index - s.links.size, by omega, ?_⟩
  cases l
  rw [LinkKey.mk.injEq]
  simp only at hnew ⊢
  omega

theorem chainOf?_labelLast (hlen : 2 ≤ path.length) :
    (t.labelLast entry (s.lastLink path)).chainOf? s.nextLink = some s.nextChain := by
  obtain ⟨ident, hl⟩ := h.link?_labelLast (j := 0) (List.getElem?_eq_getElem (by omega))
    (List.getElem?_eq_getElem (by omega))
  rw [chainOf?, nextLink, ← Nat.add_zero s.links.size, hl]
  rfl

/-- A path adds one chain. -/
theorem adds (hlen : 2 ≤ path.length) :
    Adds s (t.labelLast entry (s.lastLink path)) [s.nextLink] := by
  obtain ⟨links, hframe, hsize⟩ := labelLast_frame (t := t) entry (s.lastLink path)
  refine ⟨h.appends_labelLast, ?_, ?_, fun {l link} hl hnew => ?_⟩
  · rw [hframe]; exact h.chains_size
  · simp [h.chainOf?_labelLast hlen, nextChain]
  · have hin : t.HasLink l := by
      have hin := hasLink_iff.mpr ⟨link, hl⟩
      rwa [hframe, HasLink, hsize] at hin
    obtain ⟨j, hj, rfl⟩ := h.exists_of_new hin hnew
    obtain ⟨ident, hl'⟩ := h.link?_labelLast (List.getElem?_eq_getElem (by omega))
      (List.getElem?_eq_getElem hj)
    rw [hl'] at hl
    cases hl
    exact not_hasChain_nextChain

/-- With the label at its end a path is drawn. -/
theorem draws (hlen : 2 ≤ path.length) :
    Draws (t.labelLast entry (s.lastLink path)) entry path s.nextChain := by
  refine ⟨?_, fun {j l} hl => ?_⟩
  · rw [h.chain_labelLast, List.length_map, List.length_range']
    omega
  · rw [h.chain_labelLast, List.getElem?_map] at hl
    obtain ⟨n, hn, rfl⟩ := Option.map_eq_some_iff.mp hl
    obtain ⟨hj, rfl⟩ := List.getElem?_eq_some_iff.mp hn
    rw [List.length_range'] at hj
    have ha := List.getElem?_eq_getElem (l := path) (i := j) (by omega)
    have hb := List.getElem?_eq_getElem (l := path) (i := j + 1) (by omega)
    obtain ⟨ident, hl⟩ := h.link?_labelLast ha hb
    refine ⟨path[j], path[j + 1], ident, ha, hb, ?_⟩
    rw [List.getElem_range', Nat.one_mul, h.appends_labelLast.drawn]
    exact hl

theorem heads (hlen : 2 ≤ path.length) :
    Heads s (t.labelLast entry (s.lastLink path)) entry path s.nextLink := by
  refine ⟨s.nextChain, not_hasChain_nextChain, h.chainOf?_labelLast hlen, ?_, h.draws hlen⟩
  rw [h.chain_labelLast, show path.length - 1 = path.length - 2 + 1 by omega, List.range'_succ]
  rfl

end Traces

end Labelled

theorem connectPath_of_short (entry : LinkEntry) {path : List InstanceKey} (hlen : path.length < 2) :
    s.connectPath entry path = (none, s) := by
  rcases path with _ | ⟨_, _ | ⟨_, _⟩⟩
  · rfl
  · rfl
  · exact absurd hlen (by simp)

/-- Connecting a path draws it, in a chain of its own. -/
theorem connectPath_eq (entry : LinkEntry) {path : List InstanceKey} (hlen : 2 ≤ path.length) :
    ∃ t, s.connectPath entry path = (some s.nextLink, t) ∧ Adds s t [s.nextLink] ∧
      Heads s t entry path s.nextLink := by
  match path, hlen with
  | first :: second :: rest, hlen =>
    have hstart := traces_drawLink (s := s) entry first second
    have hkey : s.lastLink [first, second] = s.nextLink := rfl
    have hall := Traces.extendAll rest hstart (Nat.le_refl _)
    rw [hkey] at hall
    obtain ⟨hlast, htraces⟩ := hall
    have hlong : 2 ≤ ([first, second] ++ rest).length := hlen
    have hadds := htraces.adds hlong
    have hheads := htraces.heads hlong
    rw [← hlast] at hadds hheads
    exact ⟨_, rfl, hadds, hheads⟩

end Session

end Schematic
