import Schematic.Proofs.Session.Elements

/-! Links and chains. The ends of every link are there, and a chain lists just the links that say they
    belong to it, each once. -/

namespace Schematic.Session

/-- The key names a chain of the session. -/
def HasChain (s : Session) (c : ChainKey) : Prop := c.index < s.chains.size

/-- The chain that a link belongs to. -/
def chainOf? (s : Session) (l : LinkKey) : Option ChainKey := (s.link? l).map (·.chain)

structure Linked (s : Session) : Prop where
  source : ∀ {l link}, s.link? l = some link → s.HasInstance link.source
  target : ∀ {l link}, s.link? l = some link → s.HasInstance link.target
  member_iff : ∀ l c, l ∈ s.chain c ↔ ∃ link, s.link? l = some link ∧ link.chain = c
  chain_nodup : ∀ c, (s.chain c).Nodup

variable {s t : Session}

theorem hasChain_of_member {l : LinkKey} {c : ChainKey} (h : l ∈ s.chain c) : s.HasChain c := by
  rw [HasChain]
  by_contra hc
  rw [chain, Array.getElem?_eq_none (Nat.le_of_not_lt hc)] at h
  exact List.not_mem_nil h

/-- The chain that a link says it belongs to is there. -/
theorem Linked.hasChain (hs : s.Linked) {l : LinkKey} {link : Link} (h : s.link? l = some link) :
    s.HasChain link.chain :=
  hasChain_of_member ((hs.member_iff l link.chain).mpr ⟨link, h, rfl⟩)

/-! ### A new link -/

/-- The key that the next link gets. -/
def nextLink (s : Session) : LinkKey := ⟨s.links.size⟩

/-- The key that the next chain gets. -/
def nextChain (s : Session) : ChainKey := ⟨s.chains.size⟩

theorem link?_nextLink : s.link? s.nextLink = none := Array.getElem?_size

theorem newLink_fst (source target : InstanceKey) (c : Option ChainKey) :
    (s.newLink source target c).1 = s.nextLink := by
  cases c <;> rfl

theorem link?_newLink (source target : InstanceKey) (c : Option ChainKey) (l : LinkKey) :
    (s.newLink source target c).2.link? l =
      if l = s.nextLink then
        some { ident := (s.takeIdent "link").1, source, target, chain := c.getD s.nextChain,
               multiple := s.isMany target }
      else s.link? l := by
  have hl : l = s.nextLink ↔ l.index = s.links.size := by
    rw [nextLink]; cases l; simp
  cases c with
  | none =>
    simp only [newLink, takeIdent, link?, Array.getElem?_push, hl]
    rfl
  | some c =>
    simp only [newLink, takeIdent, link?, Array.getElem?_push, hl]
    rfl

theorem chain_newLink (source target : InstanceKey) {c : Option ChainKey}
    (hc : ∀ k, c = some k → s.HasChain k) (k : ChainKey) :
    (s.newLink source target c).2.chain k =
      s.chain k ++ if k = c.getD s.nextChain then [s.nextLink] else [] := by
  cases c with
  | none =>
    have hk : k = s.nextChain ↔ k.index = s.chains.size := by
      rw [nextChain]; cases k; simp
    simp only [newLink, takeIdent, chain, Array.getElem?_push, Option.getD_none, hk]
    by_cases h : k.index = s.chains.size
    · simp [h, nextLink]
    · simp [h]
  | some c =>
    have hk : c.index = k.index ↔ k = c := by
      cases k; cases c; simp [eq_comm]
    simp only [newLink, takeIdent, chain, Array.getElem?_modify, Option.getD_some, hk]
    by_cases h : k = c
    · subst h
      rw [if_pos rfl, if_pos rfl, Array.getElem?_eq_getElem (hc k rfl)]
      rfl
    · simp [h]

theorem linked_newLink (hs : s.Linked) {source target : InstanceKey} {c : Option ChainKey}
    (hsource : s.HasInstance source) (htarget : s.HasInstance target)
    (hc : ∀ k, c = some k → s.HasChain k) : (s.newLink source target c).2.Linked := by
  have hgrows := grows_newLink (s := s) source target c
  have hnew : ∀ k, s.nextLink ∉ s.chain k := by
    intro k hk
    obtain ⟨link, hlink, -⟩ := (hs.member_iff _ _).mp hk
    rw [link?_nextLink] at hlink
    cases hlink
  constructor
  · intro l link h
    rw [link?_newLink] at h
    by_cases hl : l = s.nextLink
    · rw [if_pos hl] at h
      cases h
      exact hgrows.hasInstance hsource
    · rw [if_neg hl] at h
      exact hgrows.hasInstance (hs.source h)
  · intro l link h
    rw [link?_newLink] at h
    by_cases hl : l = s.nextLink
    · rw [if_pos hl] at h
      cases h
      exact hgrows.hasInstance htarget
    · rw [if_neg hl] at h
      exact hgrows.hasInstance (hs.target h)
  · intro l k
    rw [chain_newLink source target hc, link?_newLink, List.mem_append]
    by_cases hl : l = s.nextLink
    · subst hl
      by_cases hk : k = c.getD s.nextChain
      · simp [hk]
      · simp [hk, Ne.symm hk, hnew k]
    · rw [if_neg hl, hs.member_iff]
      by_cases hk : k = c.getD s.nextChain <;> simp [hk, hl]
  · intro k
    rw [chain_newLink source target hc]
    exact nodup_append_ite (hs.chain_nodup k) (hnew k)

theorem linked_extend (hs : s.Linked) {l : LinkKey} {next : InstanceKey}
    (hnext : s.HasInstance next) : (s.extend l next).2.Linked := by
  rw [extend]
  cases hl : s.link? l with
  | none => exact hs
  | some link =>
    refine linked_newLink hs (hs.target hl) hnext ?_
    rintro k ⟨⟩
    exact hs.hasChain hl

/-! ### Other changes -/

/-- What a modifier says does not touch where a link runs and which chain it is in. -/
theorem apply_ends (many : Bool) (link : Link) (m : Modifier) :
    (m.apply many link).source = link.source ∧ (m.apply many link).target = link.target ∧
      (m.apply many link).chain = link.chain := by
  cases m <;> exact ⟨rfl, rfl, rfl⟩

theorem linked_modify (hs : s.Linked) (l : LinkKey) (m : Modifier) : (s.modify l m).Linked := by
  rw [modify]
  cases s.link? l with
  | none => exact hs
  | some link₀ =>
    have hlink : ∀ k link, (s.modifyLink l fun link' => m.apply (s.touchesMany link₀) link').link? k
        = some link → ∃ link', s.link? k = some link' ∧ link.source = link'.source ∧
          link.target = link'.target ∧ link.chain = link'.chain := by
      intro k link h
      rw [link?_modifyLink] at h
      by_cases hk : l = k
      · rw [if_pos hk] at h
        obtain ⟨link', h', rfl⟩ := Option.map_eq_some_iff.mp h
        exact ⟨link', h', apply_ends _ _ m⟩
      · rw [if_neg hk] at h
        exact ⟨link, h, rfl, rfl, rfl⟩
    constructor
    · intro k link h
      obtain ⟨link', h', hsrc, -⟩ := hlink k link h
      rw [hsrc]; exact hs.source h'
    · intro k link h
      obtain ⟨link', h', -, htgt, -⟩ := hlink k link h
      rw [htgt]; exact hs.target h'
    · intro k c
      refine (hs.member_iff k c).trans ⟨?_, ?_⟩
      · rintro ⟨link, h, rfl⟩
        rw [link?_modifyLink]
        by_cases hk : l = k
        · rw [if_pos hk, h]
          exact ⟨_, rfl, (apply_ends _ _ m).2.2⟩
        · rw [if_neg hk]
          exact ⟨link, h, rfl⟩
      · rintro ⟨link, h, rfl⟩
        obtain ⟨link', h', -, -, hchain⟩ := hlink k link h
        exact ⟨link', h', hchain.symm⟩
    · exact hs.chain_nodup

/-- A change of nodes alone leaves links and chains in order. -/
theorem Linked.of_eq (hs : s.Linked) (hlinks : t.links = s.links) (hchains : t.chains = s.chains)
    (hgrows : Grows s t) : t.Linked := by
  have hlink : ∀ l, t.link? l = s.link? l := fun l => by rw [link?, hlinks, link?]
  have hchain : ∀ c, t.chain c = s.chain c := fun c => by rw [chain, hchains, chain]
  constructor
  · intro l link h
    exact hgrows.hasInstance (hs.source (by rwa [hlink] at h))
  · intro l link h
    exact hgrows.hasInstance (hs.target (by rwa [hlink] at h))
  · intro l c
    rw [hchain, hlink]; exact hs.member_iff l c
  · intro c
    rw [hchain]; exact hs.chain_nodup c

theorem SameElements.linked (h : SameElements s t) (hs : s.Linked) : t.Linked :=
  hs.of_eq h.links h.chains h.grows

end Schematic.Session
