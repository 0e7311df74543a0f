import Schematic.Proofs.Session.Inside
import Schematic.System

/-! Systems made from a session. Whatever calls come together in a system, its outermost nodes are in
    no container, none is there twice, and every link it has runs between instances that lie inside
    them. -/

namespace Schematic

/-! ### Lists in order of insertion -/

theorem mem_insertLast {α : Type} [DecidableEq α] {xs : List α} {x y : α} :
    y ∈ insertLast xs x ↔ y ∈ xs ∨ y = x := by
  rw [insertLast]
  by_cases h : x ∈ xs
  · rw [if_pos h]
    refine ⟨.inl, ?_⟩
    rintro (hy | rfl)
    · exact hy
    · exact h
  · rw [if_neg h, List.mem_append, List.mem_singleton]

theorem nodup_insertLast {α : Type} [DecidableEq α] {xs : List α} {x : α} (h : xs.Nodup) :
    (insertLast xs x).Nodup := by
  rw [insertLast]
  by_cases hx : x ∈ xs
  · rw [if_pos hx]; exact h
  · rw [if_neg hx, ← List.concat_eq_append]
    exact h.concat hx

namespace System

/-- The systems that calls on a new one lead to, each call speaking of elements that are there. -/
inductive Made (s : Session) : System → Prop where
  | new (ident : Ident) (name : String) : Made s { ident, name }
  | is {sys : System} (ls : List LinkKey) : Made s sys → (∀ l ∈ ls, s.HasLink l) → Made s (sys.is s ls)
  | contains {sys : System} (ns : List Node) : Made s sys → (∀ n ∈ ns, s.HasNode n) →
      Made s (sys.contains s ns)
  | restrict {sys : System} (processors : List String) : Made s sys → Made s (sys.restrict processors)
  | rename {sys : System} (name : String) : Made s sys → Made s (sys.rename name)

/-- The nodes of a system are outermost ones, and its links have both ends inside them. -/
structure Rooted (s : Session) (sys : System) : Prop where
  nodes_nodup : sys.nodes.Nodup
  root : ∀ n ∈ sys.nodes, s.HasNode n ∧ s.outer? n = none
  links_nodup : sys.links.Nodup
  ends : ∀ l ∈ sys.links, ∃ link, s.link? l = some link ∧
    s.outermost (.inst link.source) ∈ sys.nodes ∧ s.outermost (.inst link.target) ∈ sys.nodes

variable {s : Session} {sys : System}

theorem Rooted.register (h : Rooted s sys) (hs : s.Sound) {n : Node} (hn : s.HasNode n) :
    Rooted s (sys.register s n) where
  nodes_nodup := nodup_insertLast h.nodes_nodup
  root m hm := by
    rcases mem_insertLast.mp hm with hm | rfl
    · exact h.root m hm
    · exact ⟨hs.hasNode_outermost hn, hs.outer?_outermost n⟩
  links_nodup := h.links_nodup
  ends l hl := by
    obtain ⟨link, hlink, hsource, htarget⟩ := h.ends l hl
    exact ⟨link, hlink, mem_insertLast.mpr (.inl hsource), mem_insertLast.mpr (.inl htarget)⟩

theorem Rooted.addLink (h : Rooted s sys) (hs : s.Sound) (l : LinkKey) :
    Rooted s (sys.addLink s l) := by
  rw [System.addLink]
  cases hl : s.link? l with
  | none => exact h
  | some link =>
    have hsource := h.register hs (n := .inst link.source) (hs.linked.source hl)
    have hboth := hsource.register hs (n := .inst link.target) (hs.linked.target hl)
    refine ⟨hboth.nodes_nodup, hboth.root, nodup_insertLast hboth.links_nodup, ?_⟩
    intro k hk
    rcases mem_insertLast.mp hk with hk | rfl
    · exact hboth.ends k hk
    · exact ⟨link, hl, mem_insertLast.mpr (.inl (mem_insertLast.mpr (.inr rfl))),
        mem_insertLast.mpr (.inr rfl)⟩

theorem Rooted.addChain (h : Rooted s sys) (hs : s.Sound) (l : LinkKey) :
    Rooted s (sys.addChain s l) := by
  rw [System.addChain]
  cases s.link? l with
  | none => exact h
  | some link =>
    exact List.foldlRecOn (s.chain link.chain) (fun sys l => sys.addLink s l) h
      fun _ h l _ => h.addLink hs l

theorem Rooted.is (h : Rooted s sys) (hs : s.Sound) (ls : List LinkKey) :
    Rooted s (sys.is s ls) := by
  rw [System.is]
  exact List.foldlRecOn ls (fun sys l => sys.addChain s l) h fun _ h l _ => h.addChain hs l

theorem Rooted.contains (h : Rooted s sys) (hs : s.Sound) {ns : List Node}
    (hns : ∀ n ∈ ns, s.HasNode n) : Rooted s (sys.contains s ns) := by
  rw [System.contains]
  exact List.foldlRecOn ns (fun sys n => sys.register s n) h fun _ h n hn => h.register hs (hns n hn)

theorem Made.rooted (h : Made s sys) (hs : s.Sound) : Rooted s sys := by
  induction h with
  | new ident name => exact ⟨List.nodup_nil, by simp, List.nodup_nil, by simp⟩
  | is ls _ _ ih => exact ih.is hs ls
  | contains ns _ hns ih => exact ih.contains hs hns
  | restrict processors _ ih => exact ⟨ih.nodes_nodup, ih.root, ih.links_nodup, ih.ends⟩
  | rename name _ ih => exact ⟨ih.nodes_nodup, ih.root, ih.links_nodup, ih.ends⟩

end System

end Schematic
