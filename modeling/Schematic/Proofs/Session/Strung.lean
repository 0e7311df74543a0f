import Schematic.Proofs.Session.Paths
import Schematic.Proofs.Session.Reachable

/-! How chains come about. A step adds one link at the end of one chain, or leaves all chains alone; a
    link that is there keeps its course for good. So a chain always has a first link, later links come
    after earlier ones, and each of them goes on from where an earlier one ends. -/

namespace Schematic

/-- Where a link runs, and in which chain. -/
def Link.course (l : Link) : InstanceKey × InstanceKey × ChainKey := (l.source, l.target, l.chain)

namespace Session

/-- The course of a link. -/
def course? (s : Session) (l : LinkKey) : Option (InstanceKey × InstanceKey × ChainKey) :=
  (s.link? l).map Link.course

/-- The instance that a link comes from. -/
def source? (s : Session) (l : LinkKey) : Option InstanceKey := (s.course? l).map (·.1)

/-- The instance that a link leads to. -/
def target? (s : Session) (l : LinkKey) : Option InstanceKey := (s.course? l).map (·.2.1)

/-- `t` has the links and the chains of `s`, and every link runs as it did. -/
structure Steady (s t : Session) : Prop where
  course? : ∀ l, t.course? l = s.course? l
  chain : ∀ c, t.chain c = s.chain c
  chains_size : t.chains.size = s.chains.size

/-- Chains are put together link by link, each of which goes on from one that is there. -/
structure Strung (s : Session) : Prop where
  nonempty : ∀ c, s.HasChain c → s.chain c ≠ []
  ascending : ∀ c, (s.chain c).Pairwise fun l m => l.index < m.index
  joined : ∀ {c j l}, 0 < j → (s.chain c)[j]? = some l →
    ∃ i m, i < j ∧ (s.chain c)[i]? = some m ∧ s.target? m = s.source? l

variable {s t u : Session}

/-! ### Steps that leave all courses alone -/

namespace Steady

theorem refl (s : Session) : Steady s s := ⟨fun _ => rfl, fun _ => rfl, rfl⟩

theorem trans (h : Steady s t) (h' : Steady t u) : Steady s u where
  course? l := (h'.course? l).trans (h.course? l)
  chain c := (h'.chain c).trans (h.chain c)
  chains_size := h'.chains_size.trans h.chains_size

theorem of_eq (hlinks : t.links = s.links) (hchains : t.chains = s.chains) : Steady s t where
  course? l := by rw [Session.course?, link?, hlinks, Session.course?, link?]
  chain c := by rw [Session.chain, hchains, Session.chain]
  chains_size := by rw [hchains]

theorem modify (l : LinkKey) (m : Modifier) : Steady s (s.modify l m) where
  course? k := by
    rw [Session.course?, modify_eq, link?_modifyLink]
    by_cases hk : l = k
    · rw [if_pos hk, Option.map_map]
      have hsame : (Link.course ∘ fun link => m.apply (s.touchesMany link) link) = Link.course := by
        funext link
        obtain ⟨hsource, htarget, hchain⟩ := apply_ends (s.touchesMany link) link m
        simp only [Function.comp_apply, Link.course, hsource, htarget, hchain]
      rw [hsame, Session.course?]
    · rw [if_neg hk, Session.course?]
  chain c := by rw [modify_eq]; rfl
  chains_size := by rw [modify_eq]; rfl

theorem foldl {α : Type} {f : Session → α → Session} (hf : ∀ s a, Steady s (f s a)) :
    ∀ (as : List α) (s : Session), Steady s (as.foldl f s)
  | [], s => .refl s
  | a :: as, s => (hf s a).trans (Steady.foldl hf as (f s a))

theorem modifyAll (l : LinkKey) (ms : List Modifier) : Steady s (s.modifyAll l ms) :=
  Steady.foldl (fun _ m => Steady.modify l m) ms s

theorem hasChain (h : Steady s t) {c : ChainKey} : t.HasChain c ↔ s.HasChain c := by
  rw [HasChain, h.chains_size, HasChain]

theorem source? (h : Steady s t) (l : LinkKey) : t.source? l = s.source? l := by
  rw [Session.source?, h.course?, Session.source?]

theorem target? (h : Steady s t) (l : LinkKey) : t.target? l = s.target? l := by
  rw [Session.target?, h.course?, Session.target?]

theorem strung (h : Steady s t) (hs : s.Strung) : t.Strung where
  nonempty c hc := by
    rw [h.chain]
    exact hs.nonempty c (h.hasChain.mp hc)
  ascending c := by
    rw [h.chain]
    exact hs.ascending c
  joined {c j l} hj hl := by
    rw [h.chain] at hl ⊢
    simp only [h.source?, h.target?]
    exact hs.joined hj hl

end Steady

/-! ### A new link -/

section NewLink

variable (source target : InstanceKey) {c : Option ChainKey}

theorem course?_newLink (l : LinkKey) : (s.newLink source target c).2.course? l =
    if l = s.nextLink then some (source, target, c.getD s.nextChain) else s.course? l := by
  rw [course?, link?_newLink]
  by_cases hl : l = s.nextLink
  · rw [if_pos hl, if_pos hl]; rfl
  · rw [if_neg hl, if_neg hl, course?]

theorem hasChain_newLink (hc : ∀ k, c = some k → s.HasChain k) (k : ChainKey) :
    (s.newLink source target c).2.HasChain k ↔ s.HasChain k ∨ k = c.getD s.nextChain := by
  rw [newLink_eq]
  cases c with
  | none =>
    have hk : k = s.nextChain ↔ k.index = s.chains.size := by cases k; simp [nextChain]
    simp only [HasChain, Array.size_push, Option.getD_none, hk]
    omega
  | some k' =>
    simp only [HasChain, Array.size_modify, Option.getD_some]
    refine ⟨.inl, ?_⟩
    rintro (hk | rfl)
    · exact hk
    · exact hc k rfl

/-- No chain has the next link yet. -/
theorem Linked.nextLink_not_mem (hs : s.Linked) (k : ChainKey) : s.nextLink ∉ s.chain k := by
  intro hk
  obtain ⟨link, hlink, -⟩ := (hs.member_iff _ _).mp hk
  rw [link?_nextLink] at hlink
  cases hlink

/-- A member of a chain runs as before once a link is added. -/
theorem Linked.course?_member (hs : s.Linked) {k : ChainKey} {l : LinkKey} (hl : l ∈ s.chain k) :
    (s.newLink source target c).2.course? l = s.course? l := by
  rw [course?_newLink, if_neg]
  rintro rfl
  exact hs.nextLink_not_mem k hl

theorem Linked.index_lt (hs : s.Linked) {k : ChainKey} {l : LinkKey} (hl : l ∈ s.chain k) :
    l.index < s.links.size := by
  obtain ⟨link, hlink, -⟩ := (hs.member_iff _ _).mp hl
  exact hasLink_iff.mpr ⟨link, hlink⟩

/-- What stands in a chain after a link was added stood there before, or it is that link. -/
theorem chain_newLink_getElem? (hc : ∀ k, c = some k → s.HasChain k) {k : ChainKey} {j : Nat}
    {l : LinkKey} (hl : ((s.newLink source target c).2.chain k)[j]? = some l) :
    (s.chain k)[j]? = some l ∨
      k = c.getD s.nextChain ∧ j = (s.chain k).length ∧ l = s.nextLink := by
  rw [chain_newLink source target hc] at hl
  by_cases hk : k = c.getD s.nextChain
  · rw [if_pos hk, List.getElem?_append] at hl
    by_cases hj : j < (s.chain k).length
    · rw [if_pos hj] at hl
      exact .inl hl
    · rw [if_neg hj] at hl
      obtain ⟨hlt, rfl⟩ := List.getElem?_eq_some_iff.mp hl
      rw [List.length_singleton] at hlt
      exact .inr ⟨hk, by omega, by simp⟩
  · rw [if_neg hk, List.append_nil] at hl
    exact .inl hl

/-- The chain of a new link is a new one, or the link goes on from a member of it. -/
def GoesOn (s : Session) (source : InstanceKey) (c : Option ChainKey) : Prop :=
  ∀ k, c = some k → s.HasChain k ∧ ∃ m ∈ s.chain k, s.target? m = some source

theorem strung_newLink (hl : s.Linked) (hs : s.Strung) (hc : s.GoesOn source c) :
    (s.newLink source target c).2.Strung := by
  have hhas : ∀ k, c = some k → s.HasChain k := fun k hk => (hc k hk).1
  constructor
  · intro k hk
    rw [chain_newLink source target hhas]
    by_cases hnew : k = c.getD s.nextChain
    · simp [hnew]
    · rw [if_neg hnew, List.append_nil]
      exact hs.nonempty k (((hasChain_newLink source target hhas k).mp hk).resolve_right hnew)
  · intro k
    rw [chain_newLink source target hhas, List.pairwise_append]
    refine ⟨hs.ascending k, ?_, ?_⟩
    · by_cases hnew : k = c.getD s.nextChain
      · rw [if_pos hnew]; exact List.pairwise_singleton ..
      · rw [if_neg hnew]; exact List.Pairwise.nil
    · intro l hmem m hm
      by_cases hnew : k = c.getD s.nextChain
      · rw [if_pos hnew, List.mem_singleton] at hm
        rw [hm]
        exact hl.index_lt hmem
      · rw [if_neg hnew] at hm
        exact absurd hm List.not_mem_nil
  · intro k j l hj hat
    have hstays : ∀ {i : Nat} {m : LinkKey}, (s.chain k)[i]? = some m →
        ((s.newLink source target c).2.chain k)[i]? = some m ∧
          (s.newLink source target c).2.course? m = s.course? m := by
      intro i m hm
      refine ⟨?_, hl.course?_member source target (List.mem_of_getElem? hm)⟩
      rw [chain_newLink source target hhas,
        List.getElem?_append_left (List.getElem?_eq_some_iff.mp hm).1, hm]
    rcases chain_newLink_getElem? source target hhas hat with hold | ⟨hk, hlen, rfl⟩
    · obtain ⟨i, m, hi, hm, hjoin⟩ := hs.joined hj hold
      refine ⟨i, m, hi, (hstays hm).1, ?_⟩
      rw [target?, (hstays hm).2, source?, (hstays hold).2]
      exact hjoin
    · -- a chain that has links already was named, and the new one goes on from a member
      cases c with
      | none =>
        have hnone : s.chain k = [] := by simp [hk, chain, nextChain]
        rw [hnone] at hlen
        exact absurd hj (by simp [hlen])
      | some k' =>
        obtain rfl : k = k' := hk
        obtain ⟨-, m, hmem, htarget⟩ := hc k rfl
        obtain ⟨i, hm⟩ := List.getElem?_of_mem hmem
        refine ⟨i, m, hlen ▸ (List.getElem?_eq_some_iff.mp hm).1, (hstays hm).1, ?_⟩
        rw [target?, (hstays hm).2, source?, course?_newLink, if_pos rfl]
        exact htarget

end NewLink

/-! ### Steps -/

/-- A link goes on in its own chain. -/
theorem Linked.goesOn (hs : s.Linked) {l : LinkKey} {link : Link} (hl : s.link? l = some link) :
    s.GoesOn link.target (some link.chain) := by
  rintro k ⟨⟩
  refine ⟨hs.hasChain hl, l, (hs.member_iff _ _).mpr ⟨link, hl, rfl⟩, ?_⟩
  rw [target?, course?, hl]
  rfl

/-- All that a step can do to links and chains: nothing, or add a link that starts a chain or goes on
    in one. -/
theorem run_links (hs : s.Linked) (t : Step) (ht : t.Fits s) : Steady s (t.run s) ∨
    ∃ source target c, s.GoesOn source c ∧ t.run s = (s.newLink source target c).2 := by
  cases t with
  | newInstance name => exact .inl (.of_eq rfl rfl)
  | newHost => exact .inl (.of_eq rfl rfl)
  | newGroup name => exact .inl (.of_eq rfl rfl)
  | newSystem name => exact .inl (.of_eq rfl rfl)
  | setTheme theme => exact .inl (.of_eq rfl rfl)
  | annotate i text => exact .inl (.of_eq rfl rfl)
  | replicateInstance i => exact .inl (.of_eq rfl rfl)
  | replicateHost h => exact .inl (.of_eq rfl rfl)
  | placeOn i h =>
    have hsame := sameElements_placeOn (s := s) i h
    exact .inl (.of_eq hsame.links hsame.chains)
  | placeIn n g =>
    have hsame := sameElements_placeIn (s := s) n g
    exact .inl (.of_eq hsame.links hsame.chains)
  | link source target => exact .inr ⟨source, target, none, by rintro _ ⟨⟩, rfl⟩
  | extend l next =>
    obtain ⟨link, hlink⟩ := hasLink_iff.mp ht.1
    refine .inr ⟨link.target, next, some link.chain, hs.goesOn hlink, ?_⟩
    rw [Step.run, extend, hlink]
  | modify l m => exact .inl (.modify l m)

theorem strung_fresh (theme : Theme) : (fresh theme).Strung where
  nonempty c hc := absurd hc (Nat.not_lt_zero _)
  ascending c := by simp [chain, fresh]
  joined hj hl := by simp [chain, fresh] at hl

theorem Reachable.strung (h : s.Reachable) : s.Strung := by
  induction h with
  | fresh theme => exact strung_fresh theme
  | step t hreach hfits ih =>
    have hlinked := hreach.sound.linked
    rcases run_links hlinked t hfits with hsteady | ⟨source, target, c, hc, hrun⟩
    · exact hsteady.strung ih
    · rw [hrun]
      exact strung_newLink source target hlinked ih hc

/-- Whatever is done, a link that is there keeps its course. -/
theorem Leads.course? (h : Leads s t) (hs : s.Reachable) {l : LinkKey} (hl : s.HasLink l) :
    t.course? l = s.course? l := by
  induction h with
  | refl => rfl
  | @tail u _ hleads hstep ih =>
    obtain ⟨step, hfits, rfl⟩ := hstep
    have hin : u.HasLink l := Leads.grows hleads |>.hasLink hl
    rw [← ih]
    rcases run_links (Leads.reachable hleads hs).sound.linked step hfits with
      hsteady | ⟨source, target, c, -, hrun⟩
    · exact hsteady.course? l
    · rw [hrun, course?_newLink, if_neg]
      rintro rfl
      exact Nat.lt_irrefl _ hin

end Session

end Schematic
