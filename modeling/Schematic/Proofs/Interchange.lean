import Schematic.Proofs.Builder
import Schematic.Proofs.Session.Edits

/-! An instance may be put on a host first and into a group then, or the other way round. On one way the
    instance has a place in the group, which the host takes over; on the other the host goes there from
    wherever it has got to. What holds what is the same in the end, and so are all lists but for the order
    in which groups list their children. -/

namespace Schematic.Session

/-- `t` is `s`, but its groups may have taken in their children in another order. -/
structure SameUpToOrder (s t : Session) : Prop where
  hostOf : ∀ i, t.hostOf? i = s.hostOf? i
  residents : ∀ h, t.residents h = s.residents h
  groupOf : ∀ n, t.groupOf? n = s.groupOf? n
  children : ∀ g, (t.children g).Perm (s.children g)
  theme : t.theme = s.theme
  links : t.links = s.links
  chains : t.chains = s.chains
  counter : t.counter = s.counter
  identOf? : ∀ n, t.identOf? n = s.identOf? n

/-- What holds what in `t` is what does in `s`, but that `i` is on `h` and `h` in `g`. -/
structure Joined (s t : Session) (i : InstanceKey) (h : HostKey) (g : GroupKey) : Prop where
  coherent : t.Coherent
  hostOf : ∀ j, t.hostOf? j = if j = i then some h else s.hostOf? j
  residents : ∀ k, t.residents k = (s.residents k).filter (· ≠ i) ++ if k = h then [i] else []
  groupOf : ∀ n, t.groupOf? n =
    if n = .inst i then none else if n = .host h then some g else s.groupOf? n

variable {s t u : Session} {i : InstanceKey} {h : HostKey} {g : GroupKey}

theorem SameUpToOrder.refl (s : Session) : SameUpToOrder s s :=
  ⟨fun _ => rfl, fun _ => rfl, fun _ => rfl, fun _ => .refl _, rfl, rfl, rfl, rfl, fun _ => rfl⟩

/-- What nodes say about their groups settles all lists of children but for their order. -/
theorem Coherent.children_perm (hs : s.Coherent) (ht : t.Coherent)
    (hgroup : ∀ n, t.groupOf? n = s.groupOf? n) (g : GroupKey) : (t.children g).Perm (s.children g) := by
  rw [List.perm_ext_iff_of_nodup (ht.children_nodup g) (hs.children_nodup g)]
  intro n
  rw [ht.child_iff, hgroup, ← hs.child_iff]

theorem Joined.sameUpToOrder (ht : Joined s t i h g) (hu : Joined s u i h g)
    (het : Edits (fun _ => True) s t) (heu : Edits (fun _ => True) s u) : SameUpToOrder t u where
  hostOf j := (hu.hostOf j).trans (ht.hostOf j).symm
  residents k := (hu.residents k).trans (ht.residents k).symm
  groupOf n := (hu.groupOf n).trans (ht.groupOf n).symm
  children := ht.coherent.children_perm hu.coherent fun n => (hu.groupOf n).trans (ht.groupOf n).symm
  theme := heu.theme.trans het.theme.symm
  links := heu.links.trans het.links.symm
  chains := heu.chains.trans het.chains.symm
  counter := heu.counter.trans het.counter.symm
  identOf? n := (heu.identOf? n).trans (het.identOf? n).symm

/-! ### A free instance -/

section Free

variable (hs : s.Sound) (hi : s.HasInstance i) (hh : s.HasHost h) (hg : s.HasGroup g)
  (hfree : s.hostOf? i = none)
include hs hi hh hg hfree

/-- First into the group: there the host takes the place of the instance. -/
theorem joined_within_on : Joined s ((s.placeIn (.inst i) g).placeOn i h) i h g := by
  have hin : s.HasNode (.inst i) := hi
  have hgrows := (sameElements_placeIn (s := s) (.inst i) g).grows
  have hhost := hostOf?_placeIn hs.coherent hin hg
  have hstand : s.standIn (.inst i) = .inst i := by rw [standIn, hfree]
  have hgroup := groupOf?_placeIn hs.coherent hin hg
  have hmid := (sound_placeIn hs hin hg).coherent
  have hlodged := lodged_placeOn hmid (hgrows.hasInstance hi) (hgrows.hasHost hh)
    (by rw [hhost, hfree]; simp)
  refine ⟨hlodged.coherent hmid, fun j => ?_, fun k => ?_, fun n => ?_⟩
  · rw [hlodged.hostOf, hhost]
  · rw [hlodged.residents, residents_placeIn hs.coherent hin hg]
  · rw [hlodged.groupOf]
    by_cases hn : n = .inst i
    · rw [if_pos hn, if_pos hn]
    · have hthere : (s.placeIn (.inst i) g).groupOf? (.inst i) = some g := by
        rw [hgroup, hstand, if_pos ⟨rfl, rfl⟩]
      have hother : (s.placeIn (.inst i) g).groupOf? n = s.groupOf? n := by
        rw [hgroup, hstand, if_neg fun hc => hn hc.1]
      rw [if_neg hn, if_neg hn, hthere, Option.some_or, hother]

/-- First onto the host: wherever that is then, the instance takes it into the group. -/
theorem joined_on_within : Joined s ((s.placeOn i h).placeIn (.inst i) g) i h g := by
  have hgrows := (sameElements_placeOn (s := s) i h).grows
  have hlodged := lodged_placeOn hs.coherent hi hh (by rw [hfree]; simp)
  have hmid := sound_placeOn hs hi hh
  have hin : (s.placeOn i h).HasNode (.inst i) := hgrows.hasInstance hi
  have hgroup := hgrows.hasGroup hg
  have hstand : (s.placeOn i h).standIn (.inst i) = .host h := by
    rw [standIn, hlodged.hostOf, if_pos rfl]
  refine ⟨(sound_placeIn hmid hin hgroup).coherent, fun j => ?_, fun k => ?_, fun n => ?_⟩
  · rw [hostOf?_placeIn hmid.coherent hin hgroup, hlodged.hostOf]
  · rw [residents_placeIn hmid.coherent hin hgroup, hlodged.residents]
  · rw [groupOf?_placeIn hmid.coherent hin hgroup, hstand, hlodged.groupOf]
    by_cases hn : n = .inst i
    · have hne : ¬ (n = .host h ∧ (s.placeOn i h).encloses (.host h) g = false) := by
        rintro ⟨hc, -⟩
        rw [hn] at hc
        cases hc
      rw [if_neg hne, if_pos hn, if_pos hn]
    · by_cases hnh : n = .host h
      · rw [if_pos ⟨hnh, rfl⟩, if_neg hn, if_pos hnh]
      · rw [if_neg fun hc => hnh hc.1, if_neg hn, if_neg hnh, if_neg hn, if_neg hnh]

end Free

/-! ### An instance on the host -/

/-- An instance that is on the host already takes it into the group on both ways. -/
theorem on_within_of_there (hs : s.Coherent) (hi : s.HasInstance i) (hg : s.HasGroup g)
    (hthere : s.hostOf? i = some h) :
    (s.placeOn i h).placeIn (.inst i) g = (s.placeIn (.inst i) g).placeOn i h := by
  have hthere' : (s.placeIn (.inst i) g).hostOf? i = some h :=
    (hostOf?_placeIn hs (n := .inst i) hi hg i).trans hthere
  rw [placeOn_of_there hthere, placeOn_of_there hthere']

/-- Afterwards the instance is on the host, and the host in the group. -/
theorem settled_on_within (hs : s.Sound) (hi : s.HasInstance i) (hh : s.HasHost h) (hg : s.HasGroup g)
    (hfree : s.hostOf? i = none ∨ s.hostOf? i = some h) :
    ((s.placeOn i h).placeIn (.inst i) g).hostOf? i = some h ∧
      ((s.placeOn i h).placeIn (.inst i) g).groupOf? (.host h) = some g := by
  rcases hfree with hfree | hthere
  · have hjoined := joined_on_within hs hi hh hg hfree
    exact ⟨by rw [hjoined.hostOf, if_pos rfl], by rw [hjoined.groupOf, if_neg (by simp), if_pos rfl]⟩
  · have hin : s.HasNode (.inst i) := hi
    have hstand : s.standIn (.inst i) = .host h := by rw [standIn, hthere]
    rw [placeOn_of_there hthere, hostOf?_placeIn hs.coherent hin hg, groupOf?_placeIn hs.coherent hin hg,
      hstand]
    exact ⟨hthere, if_pos ⟨rfl, rfl⟩⟩

/-- For an instance that is on no host, or on this one, it does not matter whether it is put into the group
    or on the host first. -/
theorem within_on_interchange {s : Session} (hs : s.Built) {i : InstanceKey} {h : HostKey}
    {g : GroupKey} (hi : s.HasInstance i) (hh : s.HasHost h) (hg : s.HasGroup g)
    (hfree : s.hostOf? i = none ∨ s.hostOf? i = some h) :
    let t := (s.placeIn (.inst i) g).placeOn i h
    let u := (s.placeOn i h).placeIn (.inst i) g
    SameUpToOrder t u ∧ t.hostOf? i = some h ∧ t.groupOf? (.host h) = some g ∧
      u.hostOf? i = some h ∧ u.groupOf? (.host h) = some g := by
  have hsound := hs.sound
  have hsame : SameUpToOrder ((s.placeIn (.inst i) g).placeOn i h)
      ((s.placeOn i h).placeIn (.inst i) g) := by
    rcases hfree with hfree | hthere
    · have hplaceIn : ∀ r : Session, Edits (fun _ => True) r (r.placeIn (.inst i) g) := fun r =>
        (Edits.placeIn (.inst i) g).mono fun _ _ => trivial
      have hplaceOn : ∀ r : Session, Edits (fun _ => True) r (r.placeOn i h) := fun r =>
        (Edits.placeOn i h).mono fun _ _ => trivial
      exact (joined_within_on hsound hi hh hg hfree).sameUpToOrder
        (joined_on_within hsound hi hh hg hfree) ((hplaceIn _).trans (hplaceOn _))
        ((hplaceOn _).trans (hplaceIn _))
    · rw [on_within_of_there hsound.coherent hi hg hthere]
      exact .refl _
  obtain ⟨hon, hin⟩ := settled_on_within hsound hi hh hg hfree
  exact ⟨hsame, (hsame.hostOf i).symm.trans hon, (hsame.groupOf (.host h)).symm.trans hin, hon, hin⟩

/-- An instance in one group, and a host in another one with a second instance next to it. -/
def market : Session :=
  [.step (.newGroup (some "shop")), .step (.newGroup (some "stock")), .step .newHost,
    .step (.newInstance "till"), .step (.newInstance "shelf"), .step (.placeIn (.inst ⟨0⟩) ⟨0⟩),
    .step (.placeIn (.host ⟨0⟩) ⟨1⟩), .step (.placeIn (.inst ⟨1⟩) ⟨1⟩)].foldl Call.run (.fresh .dark)

/-- If the till is put into the group first, it finds the host there, which stays before the shelf. If it
    is put on the host first, it takes the host away to its own group, and the host comes back behind the
    shelf. -/
theorem market_interchange : market.Built ∧ market.hostOf? ⟨0⟩ = none ∧
    let t := (market.placeIn (.inst ⟨0⟩) ⟨1⟩).placeOn ⟨0⟩ ⟨0⟩
    let u := (market.placeOn ⟨0⟩ ⟨0⟩).placeIn (.inst ⟨0⟩) ⟨1⟩
    t.children ⟨1⟩ = [.host ⟨0⟩, .inst ⟨1⟩] ∧ u.children ⟨1⟩ = [.inst ⟨1⟩, .host ⟨0⟩] ∧
      (u.children ⟨1⟩).Perm (t.children ⟨1⟩) ∧ u.groupOf? (.host ⟨0⟩) = some ⟨1⟩ := by
  have hbuilt : market.Built := (Built.fresh .dark).foldl (by decide)
  obtain ⟨hsame, -, -, -, hin⟩ := within_on_interchange hbuilt (i := ⟨0⟩) (h := ⟨0⟩) (g := ⟨1⟩)
    (by decide) (by decide) (by decide) (.inl (by decide))
  exact ⟨hbuilt, by decide, by decide, by decide, hsame.children ⟨1⟩, hin⟩

end Schematic.Session
