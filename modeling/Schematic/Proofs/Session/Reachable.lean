import Schematic.Proofs.Session.Chains

/-! What holds of every session that steps lead to. The fresh session has it and each step keeps it:
    what holds what agrees on both sides, every way outwards is finite, and links are in order. -/

namespace Schematic.Session

/-- What all sessions have that come of steps. -/
structure Sound (s : Session) : Prop where
  coherent : s.Coherent
  grounded : s.Grounded
  linked : s.Linked

variable {s t u : Session}

theorem groupOf?_fresh (theme : Theme) (n : Node) : (fresh theme).groupOf? n = none := by
  cases n <;> simp [groupOf?, instance?, host?, group?, fresh]

theorem hostOf?_fresh (theme : Theme) (i : InstanceKey) : (fresh theme).hostOf? i = none := by
  simp [hostOf?, instance?, fresh]

theorem sound_fresh (theme : Theme) : (fresh theme).Sound := by
  have hgroup := groupOf?_fresh theme
  have hhost := hostOf?_fresh theme
  have hchildren : ∀ g, (fresh theme).children g = [] := fun g => by simp [children, group?, fresh]
  have hresidents : ∀ h, (fresh theme).residents h = [] := fun h => by
    simp [residents, host?, fresh]
  have hlink : ∀ l, (fresh theme).link? l = none := fun l => by simp [link?, fresh]
  have hchain : ∀ c, (fresh theme).chain c = [] := fun c => by simp [chain, fresh]
  constructor
  · constructor
    · intro n g; simp [hchildren, hgroup]
    · intro g; simp [hchildren]
    · intro i h; simp [hresidents, hhost]
    · intro h; simp [hresidents]
    · intro i h hi; exact hgroup _
  · intro n
    refine ⟨[], ?_⟩
    rw [Climb, outer?_unhosted fun i _ => hhost i, hgroup, Option.map_none]
  · constructor
    · intro l link h; rw [hlink] at h; cases h
    · intro l link h; rw [hlink] at h; cases h
    · intro l c; simp [hchain, hlink]
    · intro c; simp [hchain]

/-! ### Steps -/

/-- A step that leaves nesting and links alone keeps all of it. -/
theorem Sound.of_sameNesting (hs : s.Sound) (h : SameNesting s t) (hlinks : t.links = s.links)
    (hchains : t.chains = s.chains) (hgrows : Grows s t) : t.Sound :=
  ⟨h.coherent hs.coherent, h.grounded hs.coherent hs.grounded, hs.linked.of_eq hlinks hchains hgrows⟩

theorem sound_placeIn (hs : s.Sound) {n : Node} {g : GroupKey} (hn : s.HasNode n)
    (hg : s.HasGroup g) : (s.placeIn n g).Sound := by
  rcases placeIn_cases hs.coherent hn hg with ⟨-, hsame⟩ | ⟨-, hself, hmoved⟩
  · rw [hsame]; exact hs
  · have hfree : ∀ i, s.standIn n = .inst i → s.hostOf? i = none := fun i => hostOf?_of_standIn
    exact ⟨hmoved.coherent hs.coherent hfree, hmoved.grounded hs.coherent hs.grounded hfree hself,
      (sameElements_placeIn n g).linked hs.linked⟩

theorem sound_placeOn (hs : s.Sound) {i : InstanceKey} {h : HostKey} (hi : s.HasInstance i)
    (hh : s.HasHost h) : (s.placeOn i h).Sound := by
  by_cases hthere : s.hostOf? i = some h
  · rw [placeOn_of_there hthere]; exact hs
  · have hlodged := lodged_placeOn hs.coherent hi hh hthere
    exact ⟨hlodged.coherent hs.coherent, hlodged.grounded hs.coherent hs.grounded,
      (sameElements_placeOn i h).linked hs.linked⟩

theorem sound_newLink (hs : s.Sound) {source target : InstanceKey} (hsource : s.HasInstance source)
    (htarget : s.HasInstance target) : (s.newLink source target none).2.Sound := by
  have hsame := sameNesting_newLink (s := s) source target none
  refine ⟨hsame.coherent hs.coherent, hsame.grounded hs.coherent hs.grounded, ?_⟩
  exact linked_newLink hs.linked hsource htarget (by rintro _ ⟨⟩)

theorem sameNesting_extend (l : LinkKey) (next : InstanceKey) :
    SameNesting s (s.extend l next).2 := by
  rw [extend]
  cases s.link? l with
  | none => exact ⟨fun _ => rfl, fun _ => rfl, fun _ => rfl, fun _ => rfl⟩
  | some link => exact sameNesting_newLink _ _ _

/-- Every step that speaks of elements of the session keeps it sound. -/
theorem sound_run (hs : s.Sound) (t : Step) (ht : t.Fits s) : (t.run s).Sound := by
  have hkeep : ∀ {r : Session}, SameNesting s r → r.links = s.links → r.chains = s.chains →
      Grows s r → r.Sound := fun h hl hc hg => hs.of_sameNesting h hl hc hg
  cases t with
  | newInstance name =>
    exact hkeep (sameNesting_newInstance name) rfl rfl (grows_newInstance name)
  | newHost => exact hkeep sameNesting_newHost rfl rfl grows_newHost
  | newGroup name => exact hkeep (sameNesting_newGroup name) rfl rfl (grows_newGroup name)
  | newSystem name =>
    exact hkeep ⟨fun n => by cases n <;> rfl, fun _ => rfl, fun _ => rfl, fun _ => rfl⟩ rfl rfl
      ⟨id, id⟩
  | setTheme theme =>
    exact hkeep ⟨fun n => by cases n <;> rfl, fun _ => rfl, fun _ => rfl, fun _ => rfl⟩ rfl rfl
      ⟨id, id⟩
  | annotate i text =>
    exact hkeep (sameNesting_modifyInstance (by intro _; rfl) (by intro _; rfl)) rfl rfl
      (sameElements_modifyInstance i _).grows
  | replicateInstance i =>
    exact hkeep (sameNesting_modifyInstance (by intro _; rfl) (by intro _; rfl)) rfl rfl
      (sameElements_modifyInstance i _).grows
  | replicateHost h =>
    exact hkeep (sameNesting_modifyHost (by intro _; rfl) (by intro _; rfl)) rfl rfl
      (sameElements_modifyHost h _).grows
  | placeOn i h => exact sound_placeOn hs ht.1 ht.2
  | placeIn n g => exact sound_placeIn hs ht.1 ht.2
  | link source target => exact sound_newLink hs ht.1 ht.2
  | extend l next =>
    have hsame := sameNesting_extend (s := s) l next
    exact ⟨hsame.coherent hs.coherent, hsame.grounded hs.coherent hs.grounded,
      linked_extend hs.linked ht.2⟩
  | modify l m =>
    have hsame := sameNesting_modify (s := s) l m
    exact ⟨hsame.coherent hs.coherent, hsame.grounded hs.coherent hs.grounded,
      linked_modify hs.linked l m⟩

/-! ### Runs -/

/-- Some steps, each speaking of elements that are there, lead from `s` to `t`. -/
def Leads : Session → Session → Prop :=
  Relation.ReflTransGen fun s t => ∃ step : Step, step.Fits s ∧ t = step.run s

namespace Leads

theorem refl (s : Session) : Leads s s := Relation.ReflTransGen.refl

theorem trans (h : Leads s t) (h' : Leads t u) : Leads s u := Relation.ReflTransGen.trans h h'

theorem step (t : Step) (ht : t.Fits s) : Leads s (t.run s) :=
  Relation.ReflTransGen.single ⟨t, ht, rfl⟩

theorem grows (h : Leads s t) : Grows s t := by
  induction h with
  | refl => exact .refl s
  | tail _ hstep ih =>
    obtain ⟨step, -, rfl⟩ := hstep
    exact ih.trans (grows_run step)

theorem reachable (h : Leads s t) (hs : s.Reachable) : t.Reachable := by
  induction h with
  | refl => exact hs
  | tail _ hstep ih =>
    obtain ⟨step, hfits, rfl⟩ := hstep
    exact .step step ih hfits

end Leads

theorem Reachable.sound (h : s.Reachable) : s.Sound := by
  induction h with
  | fresh theme => exact sound_fresh theme
  | step t _ hfits ih => exact sound_run ih t hfits

end Schematic.Session
