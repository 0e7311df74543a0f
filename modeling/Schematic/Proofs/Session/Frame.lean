import Schematic.Proofs.Session.Edits
import Schematic.Proofs.Session.Inside
import Schematic.Proofs.Session.Paths

/-! Keeping some trees as they are. Where the records of all nodes under some roots stay the same, so do
    the trees: the way outwards from each of these nodes is the one that it was, and no other node comes
    to be under the roots. A change that touches nothing under the roots, and a link that is not in a
    chain that was there, keep the records, the links and the chains as they are. -/

namespace Schematic.Session

variable {s t u : Session} {roots : List Node}

/-! ### What records say about nesting -/

theorem hostOf?_of_record {i : InstanceKey} (h : t.record? (.inst i) = s.record? (.inst i)) :
    t.hostOf? i = s.hostOf? i := by
  rw [hostOf?, instance?_of_record h, hostOf?]

theorem groupOf?_of_record {n : Node} (h : t.record? n = s.record? n) :
    t.groupOf? n = s.groupOf? n := by
  cases n with
  | inst i => rw [groupOf?, instance?_of_record h, groupOf?]
  | host k => rw [groupOf?, host?_of_record h, groupOf?]
  | group g => rw [groupOf?, group?_of_record h, groupOf?]

theorem outer?_of_record {n : Node} (h : t.record? n = s.record? n) : t.outer? n = s.outer? n := by
  cases n with
  | inst i => simp only [outer?, hostOf?_of_record h, groupOf?_of_record h]
  | host k => simp only [outer?, groupOf?_of_record h]
  | group g => simp only [outer?, groupOf?_of_record h]

theorem inside_of_record {n : Node} (h : t.record? n = s.record? n) : t.inside n = s.inside n := by
  cases n with
  | inst i => rfl
  | host k => rw [inside, residents, host?_of_record h, inside, residents]
  | group g => rw [inside, children, group?_of_record h, inside, children]

theorem Sound.outermost_of_outer (hs : s.Sound) {n o : Node} (h : s.outer? n = some o) :
    s.outermost n = s.outermost o := by
  rw [outermost, ancestors_of_outer hs.coherent hs.grounded h, List.getLast?_cons, Option.getD_some,
    outermost]

theorem Sound.outermost_of_root (hs : s.Sound) {n : Node} (h : s.outer? n = none) :
    s.outermost n = n := by
  rw [outermost, ancestors_of_outermost hs.coherent h]
  rfl

/-! ### Under roots -/

/-- The node is one of the session and in the tree of a root. -/
def Under (s : Session) (roots : List Node) (n : Node) : Prop :=
  s.HasNode n ∧ s.outermost n ∈ roots

theorem Under.outer (hs : s.Sound) {n o : Node} (h : s.Under roots n) (ho : s.outer? n = some o) :
    s.Under roots o :=
  ⟨hasNode_outer hs.coherent ho, hs.outermost_of_outer ho ▸ h.2⟩

theorem Under.inside (hs : s.Sound) {n m : Node} (h : s.Under roots n) (hm : m ∈ s.inside n) :
    s.Under roots m := by
  have ho := (mem_inside_iff hs.coherent).mp hm
  exact ⟨hasNode_of_outer ho, hs.outermost_of_outer ho ▸ h.2⟩

/-- The roots are nodes of the session that are in no container. -/
def AreRoots (s : Session) (roots : List Node) : Prop :=
  ∀ r ∈ roots, s.HasNode r ∧ s.outer? r = none

/-- `t` has the trees under the roots, the links and the chains of `s`, and its other links are in
    other chains. -/
structure Frames (roots : List Node) (s t : Session) : Prop where
  theme : t.theme = s.theme
  record? : ∀ {n}, s.Under roots n → t.record? n = s.record? n
  link? : ∀ {l}, s.HasLink l → t.link? l = s.link? l
  chain : ∀ {c}, s.HasChain c → t.chain c = s.chain c
  chains_size : s.chains.size ≤ t.chains.size
  apart : ∀ {l link}, t.link? l = some link → ¬ s.HasLink l → ¬ s.HasChain link.chain

namespace Frames

theorem refl (s : Session) : Frames roots s s :=
  ⟨rfl, fun _ => rfl, fun _ => rfl, fun _ => rfl, Nat.le_refl _,
    fun hl hnew => absurd (hasLink_iff.mpr ⟨_, hl⟩) hnew⟩

/-- A node under the roots has the outermost container that it had. -/
theorem outermost (h : Frames roots s t) (hs : s.Sound) (ht : t.Sound) {n : Node}
    (hn : s.Under roots n) : t.outermost n = s.outermost n := by
  suffices hclimb : ∀ {path : List Node} {n : Node}, Climb s.outer? n path → s.Under roots n →
      t.outermost n = s.outermost n from
    hclimb (climb_ancestors hs.coherent hs.grounded n) hn
  intro path
  induction path with
  | nil =>
    intro n hnone hn
    rw [ht.outermost_of_root ((outer?_of_record (h.record? hn)).trans hnone),
      hs.outermost_of_root hnone]
  | cons o path ih =>
    rintro n ⟨ho, hpath⟩ hn
    rw [ht.outermost_of_outer ((outer?_of_record (h.record? hn)).trans ho),
      hs.outermost_of_outer ho]
    exact ih hpath (hn.outer hs ho)

/-- Nothing else comes to be under the roots. -/
theorem under (h : Frames roots s t) (hs : s.Sound) (ht : t.Sound) (hroots : s.AreRoots roots)
    {n : Node} (hn : t.outermost n ∈ roots) : s.Under roots n := by
  suffices hclimb : ∀ {path : List Node} {n : Node}, Climb t.outer? n path →
      t.outermost n ∈ roots → s.Under roots n from
    hclimb (climb_ancestors ht.coherent ht.grounded n) hn
  intro path
  induction path with
  | nil =>
    intro n hnone hn
    rw [ht.outermost_of_root hnone] at hn
    obtain ⟨hin, hroot⟩ := hroots n hn
    exact ⟨hin, by rwa [hs.outermost_of_root hroot]⟩
  | cons o path ih =>
    rintro n ⟨ho, hpath⟩ hn
    rw [ht.outermost_of_outer ho] at hn
    have hunder := ih hpath hn
    have hin := (mem_inside_iff ht.coherent).mpr ho
    rw [inside_of_record (h.record? hunder)] at hin
    exact hunder.inside hs hin

theorem hasLink (h : Frames roots s t) {l : LinkKey} (hl : s.HasLink l) : t.HasLink l := by
  rw [hasLink_iff, h.link? hl, ← hasLink_iff]
  exact hl

/-! ### Steps -/

/-- A change that touches nothing under the roots. -/
theorem edits {p : Node → Prop} (h : Frames roots s t) (he : Edits p t u)
    (hp : ∀ n, p n → ¬ s.Under roots n) : Frames roots s u where
  theme := he.theme.trans h.theme
  record? hn := (he.record? _ fun hpn => hp _ hpn hn).trans (h.record? hn)
  link? hl := by rw [Session.link?, he.links]; exact h.link? hl
  chain hc := by rw [Session.chain, he.chains]; exact h.chain hc
  chains_size := by rw [he.chains]; exact h.chains_size
  apart {l link} hl := by
    rw [Session.link?, he.links] at hl
    exact h.apart hl

/-- Another session with the links and chains of the second, and its records of nodes that were there. -/
theorem congr (h : Frames roots s t) (htheme : u.theme = t.theme) (hlinks : u.links = t.links)
    (hchains : u.chains = t.chains) (hrecord : ∀ n, s.HasNode n → u.record? n = t.record? n) :
    Frames roots s u where
  theme := htheme.trans h.theme
  record? {n} hn := (hrecord n hn.1).trans (h.record? hn)
  link? hl := by rw [Session.link?, hlinks]; exact h.link? hl
  chain hc := by rw [Session.chain, hchains]; exact h.chain hc
  chains_size := by rw [hchains]; exact h.chains_size
  apart {l link} hl := by
    rw [Session.link?, hlinks] at hl
    exact h.apart hl

/-- A node that was not there. -/
theorem newNode (h : Frames roots s t) (htheme : u.theme = t.theme) (hlinks : u.links = t.links)
    (hchains : u.chains = t.chains) {n : Node} {r : Record}
    (hrecord : ∀ m, u.record? m = if m = n then some r else t.record? m) (hn : ¬ s.HasNode n) :
    Frames roots s u := by
  refine h.congr htheme hlinks hchains fun m hm => ?_
  rw [hrecord, if_neg]
  rintro rfl
  exact hn hm

/-- A link in a new chain, or in a chain that `s` does not have. -/
theorem newLink (h : Frames roots s t) (source target : InstanceKey) {c : Option ChainKey}
    (hc : ∀ k, c = some k → t.HasChain k ∧ ¬ s.HasChain k) :
    Frames roots s (t.newLink source target c).2 := by
  have hhas : ∀ k, c = some k → t.HasChain k := fun k hk => (hc k hk).1
  have hnew : ¬ s.HasChain (c.getD t.nextChain) := by
    cases c with
    | none => exact Nat.not_lt_of_le h.chains_size
    | some k => exact (hc k rfl).2
  have hrecord : ∀ n, (t.newLink source target c).2.record? n = t.record? n := fun n => by
    rw [newLink_eq]
    cases n <;> rfl
  refine ⟨by rw [newLink_eq]; exact h.theme, fun {n} hn => (hrecord n).trans (h.record? hn),
    fun {l} hl => ?_, fun {k} hk => ?_, ?_, fun {l link} hl hold => ?_⟩
  · rw [link?_newLink, if_neg, h.link? hl]
    rintro rfl
    exact Nat.lt_irrefl _ (h.hasLink hl)
  · have hne : k ≠ c.getD t.nextChain := fun he => hnew (he ▸ hk)
    rw [chain_newLink source target hhas, if_neg hne, List.append_nil, h.chain hk]
  · have := h.chains_size
    rw [newLink_eq]
    cases c <;> simp <;> omega
  · rw [link?_newLink] at hl
    split at hl
    · cases hl
      exact hnew
    · exact h.apart hl hold

/-- A change of a link that `s` does not have. -/
theorem modify (h : Frames roots s t) {l : LinkKey} (hl : ¬ s.HasLink l) (m : Modifier) :
    Frames roots s (t.modify l m) := by
  rw [modify_eq]
  refine ⟨h.theme, fun {n} hn => ?_, fun {k} hk => ?_, fun hc => h.chain hc, h.chains_size,
    fun {k link} hk hold => ?_⟩
  · rw [← h.record? hn]
    cases n <;> rfl
  · rw [link?_modifyLink, if_neg, h.link? hk]
    rintro rfl
    exact hl hk
  · rw [link?_modifyLink] at hk
    split at hk
    · obtain ⟨link', hlink', rfl⟩ := Option.map_eq_some_iff.mp hk
      rw [(apply_ends _ _ _).2.2]
      exact h.apart hlink' hold
    · exact h.apart hk hold

end Frames

end Schematic.Session
