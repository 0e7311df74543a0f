import Schematic.Proofs.Checked.Drawing

/-! Nothing goes on for ever and nothing is looked up in vain. In every session that was built the way
    outwards from a node comes to an end, so does the way inwards, and no operation on elements of the
    session meets a key that names nothing. -/

namespace Schematic

/-- No operation on elements of the session fails, and each gives what the unchecked one gives. -/
structure Checked.Safe (s : Session) (rounds : Nat) : Prop where
  outer : ∀ n, s.HasNode n → Checked.outer s n = some (s.outer? n)
  ancestors : ∀ n, s.HasNode n → Checked.ancestors s rounds n = some (s.ancestors n)
  outermost : ∀ n, s.HasNode n → Checked.outermost s rounds n = some (s.outermost n)
  encloses : ∀ n g, s.HasGroup g → Checked.encloses s rounds n g = some (s.encloses n g)
  identOf : ∀ n, s.HasNode n → ∃ ident, s.identOf? n = some ident
  isMany : ∀ i, s.HasInstance i → Checked.isMany s i = some (s.isMany i)
  chain : ∀ l link, s.link? l = some link → s.chains[link.chain.index]? = some (s.chain link.chain)
  run : ∀ t : Step, t.Fits s → Checked.run s rounds t = some (t.run s)
  is : ∀ sys ls, (∀ l ∈ ls, s.HasLink l) → Checked.is s rounds sys ls = some (sys.is s ls)
  contains : ∀ sys ns, (∀ n ∈ ns, s.HasNode n) →
    Checked.contains s rounds sys ns = some (sys.contains s ns)
  node : ∀ n pad, s.HasNode n → Checked.node s rounds pad n = some ((Dot.block s n).write s pad)
  render : ∀ sys : System, sys.Made s → Checked.render s rounds sys = some (Dot.render s sys)

namespace Session

variable {s : Session}

/-- All around a node are groups, no two of them the same, but for the host of an instance. -/
theorem Sound.ancestors_shape (hs : s.Sound) (n : Node) :
    ∃ gs : List GroupKey, gs.Nodup ∧ s.ancestors n = s.hostAround n ++ gs.map .group := by
  have hclimb := climb_ancestors hs.coherent hs.grounded n
  obtain ⟨gs, hgs, -⟩ := climb_shape hs.coherent hclimb
  have hnodup := (List.nodup_cons.mp hclimb.nodup).2
  rw [hgs] at hnodup
  exact ⟨gs, List.Nodup.of_map _ (List.nodup_append.mp hnodup).2.1, hgs⟩

theorem Sound.safe (hs : s.Sound) {rounds : Nat} (hr : s.nestingBound < rounds) :
    Checked.Safe s rounds where
  outer _ hn := Checked.outer_eq hn
  ancestors _ hn := Checked.ancestors_eq hs hn hr
  outermost _ hn := Checked.outermost_eq hs hn hr
  encloses n _ hg := Checked.encloses_eq hs n hg hr
  identOf _ hn := Checked.hasNode_identOf hn
  isMany _ hi := Checked.isMany_eq hs hi
  chain _ _ hl := Checked.chain_eq hs hl
  run t ht := Checked.run_eq hs hr t ht
  is sys _ hls := Checked.is_eq hs hr sys hls
  contains sys _ hns := Checked.contains_eq hs hr sys hns
  node _ pad hn := Checked.node_eq hs hn (by omega)
  render _ hsys := Checked.render_eq hs hr (hsys.rooted hs)

/-- A call goes through checked steps only. -/
theorem checked_leads {t : Session} (hs : s.Reachable) (h : Leads s t) :
    Relation.ReflTransGen (fun a b => ∃ step, ∀ rounds, a.nestingBound < rounds →
      Checked.run a rounds step = some b) s t := by
  induction h with
  | refl => exact .refl
  | tail hleads hstep ih =>
    obtain ⟨step, hfits, rfl⟩ := hstep
    have hsound := (Leads.reachable hleads hs).sound
    exact ih.tail ⟨step, fun rounds hr => Checked.run_eq hsound hr step hfits⟩

/-- The way outwards from any node ends, without coming to a node twice: it leads to the host, when
    the node is an instance on one, and then through different groups. Where it ends is the outermost
    container, which has nothing around it. The way inwards ends as well. So given rounds enough, no
    operation fails, and every call comes down to steps of which none does. -/
theorem nesting_ends {s : Session} (hs : s.Built) :
    (∀ n, Climb s.outer? n (s.ancestors n) ∧ (n :: s.ancestors n).Nodup ∧
      ∃ gs : List GroupKey, gs.Nodup ∧ s.ancestors n = s.hostAround n ++ gs.map .group) ∧
    (∀ n, s.outermost n = (s.ancestors n).getLast?.getD n ∧ s.outer? (s.outermost n) = none) ∧
    (WellFounded fun m n => m ∈ s.inside n) ∧
    (∀ rounds, s.nestingBound < rounds → Checked.Safe s rounds) ∧
    (∀ c : Call, c.Fits s → Relation.ReflTransGen (fun a b => ∃ step, ∀ rounds,
      a.nestingBound < rounds → Checked.run a rounds step = some b) s (c.run s)) := by
  have hsound := hs.sound
  refine ⟨?_, ?_, ?_, ?_, ?_⟩
  · intro n
    have hclimb := climb_ancestors hsound.coherent hsound.grounded n
    exact ⟨hclimb, hclimb.nodup, hsound.ancestors_shape n⟩
  · intro n
    exact ⟨rfl, hsound.outer?_outermost n⟩
  · simpa only [mem_inside_iff hsound.coherent] using hsound.inside_wellFounded
  · intro rounds hr
    exact hsound.safe hr
  · intro c hc
    exact checked_leads hs.reachable (leads_call c hc)

/-- In `nested`, four rounds are enough. From the instance whose place its host took, the way leads
    out through both groups. -/
theorem nested_nesting_ends : nested.Built ∧
    Checked.ancestors nested 4 (.inst ⟨0⟩) = some [.host ⟨0⟩, .group ⟨1⟩, .group ⟨0⟩] ∧
    nested.outer? (nested.outermost (.inst ⟨0⟩)) = none := by
  obtain ⟨-, hlast, -, hsafe, -⟩ := nesting_ends nested_built
  refine ⟨nested_built, ?_, (hlast _).2⟩
  rw [(hsafe 4 (by decide)).ancestors _ (by decide)]
  exact congrArg some (by decide)

end Session

end Schematic
