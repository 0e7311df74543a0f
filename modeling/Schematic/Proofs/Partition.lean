import Schematic.Proofs.Builder
import Schematic.Proofs.Session.Runs
import Schematic.Proofs.Session.Strung

/-! Chains partition the links. Every link has its one place, in the chain that it names, and keeps its
    course whatever is done. A chain grows at its end only, but it may go on from any of its links, so
    it can branch; it is the path that was written if each time it went on from the last one. -/

namespace Schematic

namespace Step

/-- The instances that a step adds to the path of a chain. -/
def writes (c : ChainKey) (s : Session) : Step → List InstanceKey
  | .link source target => if s.nextChain = c then [source, target] else []
  | .extend l next => if s.chainOf? l = some c then [next] else []
  | _ => []

/-- If the step extends the chain, it goes on from the last link. -/
def AtEnd (c : ChainKey) (s : Session) : Step → Prop
  | .extend l _ => s.chainOf? l = some c → (s.chain c).getLast? = some l
  | _ => True

instance decidableAtEnd (c : ChainKey) (s : Session) : (t : Step) → Decidable (t.AtEnd c s)
  | .extend l _ =>
    inferInstanceAs (Decidable (s.chainOf? l = some c → (s.chain c).getLast? = some l))
  | .newInstance _ | .newHost | .newGroup _ | .newSystem _ | .setTheme _ | .annotate _ _
  | .replicateInstance _ | .replicateHost _ | .placeOn _ _ | .placeIn _ _ | .link _ _
  | .modify _ _ => .isTrue trivial

end Step

namespace Session

/-- The links of a chain lead along a path, one from each instance to the next. -/
structure Walks (s : Session) (c : ChainKey) (path : List InstanceKey) : Prop where
  length : (s.chain c).length + 1 = path.length
  course? : ∀ {j l}, (s.chain c)[j]? = some l →
    ∃ a b, path[j]? = some a ∧ path[j + 1]? = some b ∧ s.course? l = some (a, b, c)

/-- Every link is in one chain, at one position, and every chain is put together link by link. -/
structure Partition (s : Session) : Prop where
  nonempty : ∀ c, s.HasChain c → s.chain c ≠ []
  ascending : ∀ c, (s.chain c).Pairwise fun l m => l.index < m.index
  /-- A chain lists links only. -/
  hasLink : ∀ c, ∀ l ∈ s.chain c, s.HasLink l
  /-- The one place of a link is in the chain that it names. -/
  place : ∀ l link, s.link? l = some link → s.HasChain link.chain ∧ ∃ j : Nat,
    ∀ (c : ChainKey) (i : Nat), (s.chain c)[i]? = some l ↔ c = link.chain ∧ i = j
  /-- Each link but the first goes on where an earlier one of the chain ends. -/
  joined : ∀ (c : ChainKey) (j : Nat) (l : LinkKey) (link : Link), 0 < j →
    (s.chain c)[j]? = some l → s.link? l = some link → ∃ (i : Nat) (m : LinkKey) (before : Link),
      i < j ∧ (s.chain c)[i]? = some m ∧ s.link? m = some before ∧ before.target = link.source

variable {s : Session} {c : ChainKey}

theorem Reachable.partition (h : s.Reachable) : s.Partition := by
  have hlinked := h.sound.linked
  have hstrung := h.strung
  refine ⟨hstrung.nonempty, hstrung.ascending, fun c l hl => hlinked.index_lt hl,
    fun l link hl => ⟨hlinked.hasChain hl, ?_⟩, fun c j l link hj hat hl => ?_⟩
  · obtain ⟨j, hj⟩ := List.getElem?_of_mem ((hlinked.member_iff l _).mpr ⟨link, hl, rfl⟩)
    refine ⟨j, fun c i => ⟨fun hi => ?_, ?_⟩⟩
    · obtain ⟨link', hl', rfl⟩ := (hlinked.member_iff l c).mp (List.mem_of_getElem? hi)
      obtain rfl : link' = link := Option.some.inj (hl'.symm.trans hl)
      refine ⟨rfl, (List.getElem?_inj ?_ (hlinked.chain_nodup _)).mp (hi.trans hj.symm)⟩
      exact (List.getElem?_eq_some_iff.mp hi).1
    · rintro ⟨rfl, rfl⟩
      exact hj
  · obtain ⟨i, m, hi, hm, hjoin⟩ := hstrung.joined hj hat
    obtain ⟨before, hbefore, -⟩ := (hlinked.member_iff m c).mp (List.mem_of_getElem? hm)
    refine ⟨i, m, before, hi, hm, hbefore, ?_⟩
    rw [target?, source?, course?, hbefore, course?, hl] at hjoin
    exact Option.some.inj hjoin

/-! ### The path that is written -/

namespace Walks

variable {path : List InstanceKey}

/-- Links that follow each other meet head to tail. -/
theorem isChain (h : Walks s c path) :
    (s.chain c).IsChain fun l m => s.target? l = s.source? m := by
  refine List.isChain_iff_getElem.mpr fun j hj => ?_
  obtain ⟨_, b, -, hb, hl⟩ := h.course? (List.getElem?_eq_getElem (Nat.lt_of_succ_lt hj))
  obtain ⟨b', _, hb', -, hm⟩ := h.course? (List.getElem?_eq_getElem hj)
  rw [target?, hl, source?, hm]
  exact hb.symm.trans hb'

theorem congr {t : Session} (h : Walks s c path) (hchain : t.chain c = s.chain c)
    (hcourse : ∀ l ∈ s.chain c, t.course? l = s.course? l) : Walks t c path where
  length := by rw [hchain]; exact h.length
  course? {j l} hl := by
    rw [hchain] at hl
    rw [hcourse l (List.mem_of_getElem? hl)]
    exact h.course? hl

/-- A chain that goes on from its last link goes on at the end of the path. -/
theorem getLast? (h : Walks s c path) {l : LinkKey} {link : Link} (hl : s.link? l = some link)
    (hlast : (s.chain c).getLast? = some l) : path.getLast? = some link.target := by
  rw [List.getLast?_eq_getElem?] at hlast
  obtain ⟨_, b, -, hb, hcourse⟩ := h.course? hlast
  rw [Session.course?, hl] at hcourse
  cases hcourse
  have hlt := (List.getElem?_eq_some_iff.mp hlast).1
  rw [List.getLast?_eq_getElem?, ← hb]
  congr 1
  have := h.length
  omega

end Walks

/-- What is written of a chain is nothing until it is there, and then the path that it walks. -/
def Written (c : ChainKey) (s : Session) (path : List InstanceKey) : Prop :=
  if s.HasChain c then s.Walks c path else path = []

variable {path : List InstanceKey}

/-- A step that leaves the chain as it is writes nothing of it. -/
theorem Written.keep {t : Session} (h : s.Written c path) (hhas : t.HasChain c ↔ s.HasChain c)
    (hchain : t.chain c = s.chain c) (hcourse : ∀ l ∈ s.chain c, t.course? l = s.course? l) :
    t.Written c (path ++ []) := by
  rw [List.append_nil]
  by_cases hc : s.HasChain c
  · rw [Written, if_pos hc] at h
    rw [Written, if_pos (hhas.mpr hc)]
    exact h.congr hchain hcourse
  · rw [Written, if_neg hc] at h
    rw [Written, if_neg (hhas.not.mpr hc)]
    exact h

theorem Written.steady {t : Session} (h : s.Written c path) (ht : Steady s t) :
    t.Written c (path ++ []) :=
  h.keep ht.hasChain (ht.chain c) fun l _ => ht.course? l

/-- A link of another chain writes nothing. -/
theorem Written.other (hs : s.Linked) (h : s.Written c path) (source target : InstanceKey)
    {k : Option ChainKey} (hk : ∀ k', k = some k' → s.HasChain k') (hne : c ≠ k.getD s.nextChain) :
    (s.newLink source target k).2.Written c (path ++ []) := by
  refine h.keep ?_ ?_ fun l hl => hs.course?_member source target hl
  · rw [hasChain_newLink source target hk]
    exact or_iff_left hne
  · rw [chain_newLink source target hk, if_neg hne, List.append_nil]

/-- The first link of a chain writes both its ends. -/
theorem written_newLink (source target : InstanceKey) :
    (s.newLink source target none).2.Written s.nextChain [source, target] := by
  have hnone : ∀ k, (none : Option ChainKey) = some k → s.HasChain k := by rintro _ ⟨⟩
  have hchain : (s.newLink source target none).2.chain s.nextChain = [s.nextLink] := by
    have hempty : s.chain s.nextChain = [] := by simp [chain, nextChain]
    rw [chain_newLink source target hnone, hempty, Option.getD_none, if_pos rfl, List.nil_append]
  have hhas : (s.newLink source target none).2.HasChain s.nextChain :=
    (hasChain_newLink source target hnone _).mpr (.inr rfl)
  rw [Written, if_pos hhas]
  refine ⟨by rw [hchain]; rfl, fun {j l} hl => ?_⟩
  rw [hchain, List.getElem?_singleton] at hl
  split at hl
  · next hj =>
    cases hl
    exact ⟨source, target, by rw [hj]; rfl, by rw [hj]; rfl, by rw [course?_newLink, if_pos rfl]; rfl⟩
  · cases hl

/-- A link that goes on from the last one of the chain writes where it leads to. -/
theorem Walks.newLink (hs : s.Linked) (h : s.Walks c path) (hc : s.HasChain c) {last : InstanceKey}
    (hlast : path.getLast? = some last) (next : InstanceKey) :
    (s.newLink last next (some c)).2.Walks c (path ++ [next]) := by
  have hhas : ∀ k, some c = some k → s.HasChain k := by rintro _ ⟨⟩; exact hc
  constructor
  · rw [chain_newLink last next hhas, Option.getD_some, if_pos rfl, List.length_append,
      List.length_append, ← h.length]
    rfl
  · intro j l hl
    rcases chain_newLink_getElem? last next hhas hl with hold | ⟨-, hj, rfl⟩
    · obtain ⟨a, b, ha, hb, hcourse⟩ := h.course? hold
      rw [hs.course?_member last next (List.mem_of_getElem? hold)]
      exact ⟨a, b, List.getElem?_append_left (List.getElem?_eq_some_iff.mp ha).1 ▸ ha,
        List.getElem?_append_left (List.getElem?_eq_some_iff.mp hb).1 ▸ hb, hcourse⟩
    · have hlen := h.length
      rw [List.getLast?_eq_getElem?, show path.length - 1 = j by omega] at hlast
      refine ⟨last, next, ?_, ?_, by rw [course?_newLink, if_pos rfl]; rfl⟩
      · rw [List.getElem?_append_left (List.getElem?_eq_some_iff.mp hlast).1, hlast]
      · rw [show j + 1 = path.length by omega, List.getElem?_concat_length]

/-- What a step writes of a chain is what it adds to its path. -/
theorem written_run {t : Step} (hs : s.Reachable) (hfits : t.Fits s) (hend : t.AtEnd c s)
    (h : s.Written c path) : (t.run s).Written c (path ++ t.writes c s) := by
  have hlinked := hs.sound.linked
  cases t with
  | link source target =>
    rw [Step.writes, Step.run]
    by_cases hc : s.nextChain = c
    · subst hc
      obtain rfl : path = [] := by rwa [Written, if_neg not_hasChain_nextChain] at h
      rw [if_pos rfl]
      exact written_newLink source target
    · rw [if_neg hc]
      exact h.other hlinked source target (by rintro _ ⟨⟩) (Ne.symm hc)
  | extend l next =>
    obtain ⟨link, hlink⟩ := hasLink_iff.mp hfits.1
    have hchain : s.chainOf? l = some link.chain := by rw [chainOf?, hlink]; rfl
    have hhas := hlinked.hasChain hlink
    rw [Step.writes, Step.run, extend, hlink, hchain]
    simp only
    by_cases hc : link.chain = c
    · subst hc
      rw [Written, if_pos hhas] at h
      rw [if_pos rfl, Written,
        if_pos ((hasChain_newLink _ _ (by rintro _ ⟨⟩; exact hhas) _).mpr (.inl hhas))]
      exact h.newLink hlinked hhas (h.getLast? hlink (hend hchain)) next
    · rw [if_neg (by simpa using hc)]
      exact h.other hlinked _ next (by rintro _ ⟨⟩; exact hhas) (Ne.symm hc)
  | modify l m => exact h.steady (.modify l m)
  | placeOn i k =>
    have hsame := sameElements_placeOn (s := s) i k
    exact h.steady (.of_eq hsame.links hsame.chains)
  | placeIn n g =>
    have hsame := sameElements_placeIn (s := s) n g
    exact h.steady (.of_eq hsame.links hsame.chains)
  | _ => exact h.steady (.of_eq rfl rfl)

theorem written_fresh (theme : Theme) (c : ChainKey) : (fresh theme).Written c [] := by
  have hnone : ¬ (fresh theme).HasChain c := Nat.not_lt_zero _
  rw [Written, if_neg hnone]

/-- A run writes the path that the chain walks, if each extension goes on from the last link. -/
theorem MadeBy.walks {theme : Theme} {ts : List Step} (h : s.MadeBy theme ts) (hc : s.HasChain c)
    (hend : Step.Throughout (Step.AtEnd c) (fresh theme) ts) :
    s.Walks c (Step.collect (Step.writes c) (fresh theme) ts) := by
  obtain ⟨hfits, rfl⟩ := h
  have hrun := Step.collect_keeps (P := Written c) written_run (.fresh theme) hfits hend
    (written_fresh theme c)
  rwa [Written, if_pos hc, List.nil_append] at hrun

/-- In every session that was built, chains partition the links, and no call gives a link another
    course. Some steps make the session; and whichever steps do, a chain is the path that they write of
    it if each of them that extends the chain goes on from its last link. -/
theorem chains_partition_links {s : Session} (hs : s.Built) :
    s.Partition ∧
      (∀ cs l, Call.AllFit s cs → s.HasLink l →
        (cs.foldl Call.run s).course? l = s.course? l) ∧
      (∃ theme ts, s.MadeBy theme ts) ∧
      ∀ theme ts c, s.MadeBy theme ts → s.HasChain c →
        Step.Throughout (Step.AtEnd c) (fresh theme) ts →
          s.Walks c (Step.collect (Step.writes c) (fresh theme) ts) ∧
            (s.chain c).IsChain fun l m => s.target? l = s.source? m := by
  refine ⟨hs.reachable.partition, fun cs l hcs hl => ?_, hs.reachable.madeBy, ?_⟩
  · exact (leads_calls hcs).course? hs.reachable hl
  · intro theme ts c hmade hc hend
    have hwalks := hmade.walks hc hend
    exact ⟨hwalks, hwalks.isChain⟩

/-- Steps that draw a round trip and, in between, a way back. -/
def roundTrip : List Step :=
  [.newInstance "web", .newInstance "api", .newInstance "db", .link ⟨0⟩ ⟨1⟩, .extend ⟨0⟩ ⟨2⟩,
    .link ⟨2⟩ ⟨1⟩, .extend ⟨1⟩ ⟨0⟩]

/-- The links of the round trip are not next to each other, and yet its chain is the whole trip. -/
theorem roundTrip_walks : (roundTrip.foldl Step.run (fresh .dark)).Built ∧
    (roundTrip.foldl Step.run (fresh .dark)).chain ⟨0⟩ = [⟨0⟩, ⟨1⟩, ⟨3⟩] ∧
    (roundTrip.foldl Step.run (fresh .dark)).Walks ⟨0⟩ [⟨0⟩, ⟨1⟩, ⟨2⟩, ⟨0⟩] := by
  have hfits : Call.AllFit (fresh .dark) (roundTrip.map .step) := by decide
  have hbuilt := (Built.fresh .dark).foldl hfits
  rw [List.foldl_map] at hbuilt
  obtain ⟨-, -, -, hpath⟩ := chains_partition_links hbuilt
  exact ⟨hbuilt, by decide, (hpath .dark roundTrip ⟨0⟩ ⟨by decide, rfl⟩ (by decide) (by decide)).1⟩

end Session

end Schematic
