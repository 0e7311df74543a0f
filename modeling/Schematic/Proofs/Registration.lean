import Mathlib.Data.List.Induction
import Schematic.Proofs.Builder
import Schematic.Proofs.Document.Selection
import Schematic.Proofs.System

/-! What a system holds, told from what was registered. Registering adds values to two lists, each
    value once, so a list is what its additions are when all but the first of equal ones are left out.
    Links come in whole chains and no link is in two of them: which chains were named, in which order
    for the first time, settles the links, the nodes and the drawing. -/

namespace Schematic

/-! ### First occurrences -/

section FirstOccurrences

variable {α β : Type} [DecidableEq α] [DecidableEq β]

theorem eraseDups_concat (xs : List α) (x : α) :
    (xs ++ [x]).eraseDups = if x ∈ xs then xs.eraseDups else xs.eraseDups ++ [x] := by
  rw [List.eraseDups_append]
  by_cases h : x ∈ xs
  · simp [List.removeAll, h]
  · simp [List.removeAll, h, List.eraseDups_cons]

/-- Adding values to those that are there leaves out just the later ones of equal values. -/
theorem foldl_insertLast (ys : List α) : ∀ xs : List α,
    ys.foldl insertLast xs.eraseDups = (xs ++ ys).eraseDups := by
  induction ys with
  | nil => intro xs; rw [List.foldl_nil, List.append_nil]
  | cons y ys ih =>
    intro xs
    have hfirst : insertLast xs.eraseDups y = (xs ++ [y]).eraseDups := by
      rw [insertLast, eraseDups_concat]
      simp only [List.mem_eraseDups]
    rw [List.foldl_cons, hfirst, ih, List.append_assoc, List.singleton_append]

theorem foldl_insertLast_nil (ys : List α) : ys.foldl insertLast [] = ys.eraseDups :=
  foldl_insertLast ys []

/-- Values that are there already are not added. -/
theorem foldl_insertLast_of_subset : ∀ {ys xs : List α}, ys ⊆ xs → ys.foldl insertLast xs = xs
  | [], _, _ => rfl
  | y :: ys, xs, h => by
    rw [List.cons_subset] at h
    rw [List.foldl_cons, insertLast, if_pos h.1]
    exact foldl_insertLast_of_subset h.2

theorem mem_foldl_insertLast {y : α} : ∀ {ys xs : List α},
    y ∈ ys.foldl insertLast xs ↔ y ∈ xs ∨ y ∈ ys
  | [], xs => by simp
  | z :: ys, xs => by
    rw [List.foldl_cons, mem_foldl_insertLast, mem_insertLast, List.mem_cons, or_assoc]

theorem nodup_eraseDups (xs : List α) : xs.eraseDups.Nodup := by
  induction xs using List.reverseRecOn with
  | nil => exact List.nodup_nil
  | append_singleton xs x ih =>
    rw [eraseDups_concat]
    by_cases h : x ∈ xs
    · rw [if_pos h]; exact ih
    · rw [if_neg h, ← List.concat_eq_append]
      exact ih.concat (by rwa [List.mem_eraseDups])

theorem eraseDups_of_nodup {xs : List α} (h : xs.Nodup) : xs.eraseDups = xs := by
  induction xs using List.reverseRecOn with
  | nil => rfl
  | append_singleton xs x ih =>
    rw [List.nodup_append] at h
    rw [eraseDups_concat, if_neg fun hx => h.2.2 x hx x (by simp) rfl, ih h.1]

/-- What comes of equal values need not be added twice. -/
theorem eraseDups_flatMap (f : α → List β) (xs : List α) :
    (xs.flatMap f).eraseDups = (xs.eraseDups.flatMap f).eraseDups := by
  induction xs using List.reverseRecOn with
  | nil => rfl
  | append_singleton xs x ih =>
    have hsame : (f x).foldl insertLast (xs.flatMap f).eraseDups =
        (f x).foldl insertLast (xs.eraseDups.flatMap f).eraseDups := by rw [ih]
    rw [List.flatMap_append, List.flatMap_singleton, ← foldl_insertLast, eraseDups_concat]
    by_cases h : x ∈ xs
    · rw [if_pos h, ← ih]
      refine foldl_insertLast_of_subset fun y hy => ?_
      exact List.mem_eraseDups.mpr (List.mem_flatMap.mpr ⟨x, h, hy⟩)
    · rw [if_neg h, List.flatMap_append, List.flatMap_singleton, ← foldl_insertLast, hsame]

end FirstOccurrences

/-! ### What calls register -/

/-- A call that registers something with a system. -/
inductive Registration where
  | is (ls : List LinkKey)
  | contains (ns : List Node)

/-- What is registered as a whole: a chain with its links and their ends, or a single node. -/
inductive Item where
  | chain (c : ChainKey)
  | node (n : Node)
  deriving DecidableEq

namespace Session

/-- The different chains of some links, in order of first occurrence. -/
def chainsOf (s : Session) (ls : List LinkKey) : List ChainKey := (ls.filterMap s.chainOf?).eraseDups

/-- The outermost containers of the source and of the target of a link. -/
def ends (s : Session) (l : LinkKey) : List Node :=
  match s.link? l with
  | none => []
  | some link => [s.outermost (.inst link.source), s.outermost (.inst link.target)]

end Session

/-- The links of an item. -/
def Item.members (s : Session) : Item → List LinkKey
  | .chain c => s.chain c
  | .node _ => []

/-- The outermost nodes that an item needs. -/
def Item.roots (s : Session) : Item → List Node
  | .chain c => (s.chain c).flatMap s.ends
  | .node n => [s.outermost n]

/-- The items that a call names, as often as it names them. -/
def Registration.items (s : Session) : Registration → List Item
  | .is ls => (ls.filterMap s.chainOf?).map .chain
  | .contains ns => ns.map .node

/-- The different items that calls name, in order of first occurrence. -/
def Session.itemsOf (s : Session) (calls : List Registration) : List Item :=
  (calls.flatMap (·.items s)).eraseDups

namespace System

/-- The system after a call. -/
def handle (sys : System) (s : Session) : Registration → System
  | .is ls => sys.is s ls
  | .contains ns => sys.contains s ns

/-- The system after calls, one after the other. -/
def handleAll (sys : System) (s : Session) (calls : List Registration) : System :=
  calls.foldl (fun sys c => sys.handle s c) sys

/-- Adds nodes and links that are not there yet. -/
def adding (sys : System) (nodes : List Node) (links : List LinkKey) : System :=
  { sys with nodes := nodes.foldl insertLast sys.nodes, links := links.foldl insertLast sys.links }

variable {s : Session}

theorem adding_adding (sys : System) (ns ns' : List Node) (ls ls' : List LinkKey) :
    (sys.adding ns ls).adding ns' ls' = sys.adding (ns ++ ns') (ls ++ ls') := by
  simp only [adding, List.foldl_append]

theorem addLink_eq {l : LinkKey} (hl : s.HasLink l) (sys : System) :
    sys.addLink s l = sys.adding (s.ends l) [l] := by
  obtain ⟨link, hlink⟩ := Session.hasLink_iff.mp hl
  simp only [addLink, Session.ends, hlink, register, adding, List.foldl_cons, List.foldl_nil]

theorem addLinks_eq : ∀ {ls : List LinkKey} (sys : System), (∀ l ∈ ls, s.HasLink l) →
    ls.foldl (fun sys l => sys.addLink s l) sys = sys.adding (ls.flatMap s.ends) ls
  | [], _, _ => rfl
  | l :: ls, sys, h => by
    rw [List.foldl_cons, addLink_eq (h l (List.mem_cons_self ..)),
      addLinks_eq _ fun k hk => h k (List.mem_cons_of_mem _ hk), adding_adding, List.flatMap_cons,
      List.singleton_append]

/-- The members of a chain are links of the session. -/
theorem hasLink_of_member (hs : s.Linked) {c : ChainKey} : ∀ l ∈ s.chain c, s.HasLink l := by
  intro l hl
  obtain ⟨link, hlink, -⟩ := (hs.member_iff l c).mp hl
  exact Session.hasLink_iff.mpr ⟨link, hlink⟩

/-- A call adds what its items have. -/
theorem handle_eq (hs : s.Linked) (c : Registration) (sys : System) :
    sys.handle s c = sys.adding ((c.items s).flatMap (Item.roots s))
      ((c.items s).flatMap (Item.members s)) := by
  cases c with
  | is ls =>
    rw [handle, System.is]
    induction ls generalizing sys with
    | nil => rfl
    | cons l ls ih =>
      rw [List.foldl_cons, ih, addChain]
      cases hl : s.link? l with
      | none => simp [Registration.items, Session.chainOf?, hl]
      | some link =>
        simp only [addLinks_eq sys (hasLink_of_member hs), adding_adding]
        simp [Registration.items, Session.chainOf?, hl, Item.roots, Item.members]
  | contains ns =>
    rw [handle, System.contains]
    induction ns generalizing sys with
    | nil => rfl
    | cons n ns ih =>
      rw [List.foldl_cons, ih]
      simp [Registration.items, Item.roots, Item.members, register, adding]

theorem handleAll_eq (hs : s.Linked) : ∀ (calls : List Registration) (sys : System),
    sys.handleAll s calls = sys.adding ((calls.flatMap (·.items s)).flatMap (Item.roots s))
      ((calls.flatMap (·.items s)).flatMap (Item.members s))
  | [], _ => rfl
  | c :: calls, sys => by
    have hrest : sys.handleAll s (c :: calls) = (sys.handle s c).handleAll s calls := rfl
    rw [hrest, handleAll_eq hs calls, handle_eq hs, adding_adding, List.flatMap_cons,
      List.flatMap_append, List.flatMap_append]

/-- No link belongs to two items. -/
theorem nodup_members (hs : s.Linked) {items : List Item} (h : items.Nodup) :
    (items.flatMap (Item.members s)).Nodup := by
  refine List.nodup_flatMap.mpr ⟨?_, h.pairwise_of_forall_ne ?_⟩
  · rintro (c | n) -
    · exact hs.chain_nodup c
    · exact List.nodup_nil
  · rintro (c | n) - (c' | n') - hne l hl hl'
    · obtain ⟨link, hlink, rfl⟩ := (hs.member_iff l c).mp hl
      obtain ⟨link', hlink', rfl⟩ := (hs.member_iff l c').mp hl'
      rw [hlink] at hlink'
      cases hlink'
      exact hne rfl
    · exact absurd hl' List.not_mem_nil
    · exact absurd hl List.not_mem_nil
    · exact absurd hl List.not_mem_nil

/-- A new system after calls has what the different items have, in order of first occurrence. -/
theorem handleAll_new (hs : s.Linked) (ident : Ident) (name : String) (calls : List Registration) :
    System.handleAll { ident, name } s calls =
      { ident, name,
        nodes := ((s.itemsOf calls).flatMap (Item.roots s)).eraseDups
        links := (s.itemsOf calls).flatMap (Item.members s) } := by
  have hmembers := nodup_members hs (nodup_eraseDups (calls.flatMap (·.items s)))
  rw [handleAll_eq hs, adding, foldl_insertLast_nil, foldl_insertLast_nil, eraseDups_flatMap,
    eraseDups_flatMap (Item.members s), eraseDups_of_nodup hmembers]
  rfl

/-- A new system of links has the members of their different chains, and the ends of those. -/
theorem is_new (hs : s.Linked) (ident : Ident) (name : String) (ls : List LinkKey) :
    System.is { ident, name } s ls =
      { ident, name,
        nodes := (((s.chainsOf ls).flatMap s.chain).flatMap s.ends).eraseDups
        links := (s.chainsOf ls).flatMap s.chain } := by
  have hmembers : ((s.chainsOf ls).flatMap s.chain).Nodup := by
    have hitems : ((s.chainsOf ls).map Item.chain).Nodup :=
      (nodup_eraseDups _).map fun c c' h => by cases h; rfl
    have hnodup := nodup_members hs hitems
    rwa [List.flatMap_map] at hnodup
  have hadding : System.is { ident, name } s ls = System.adding { ident, name }
      ((ls.filterMap s.chainOf?).flatMap fun c => (s.chain c).flatMap s.ends)
      ((ls.filterMap s.chainOf?).flatMap s.chain) := by
    have h := handle_eq hs (.is ls) { ident, name }
    rw [Registration.items, List.flatMap_map, List.flatMap_map] at h
    exact h
  rw [hadding, adding, foldl_insertLast_nil, foldl_insertLast_nil, eraseDups_flatMap,
    eraseDups_flatMap s.chain, List.flatMap_assoc]
  rw [Session.chainsOf] at hmembers
  rw [eraseDups_of_nodup hmembers]
  rfl

/-- What an item needs is in no container. -/
theorem outer?_of_root (hs : s.Sound) {i : Item} {n : Node} (h : n ∈ i.roots s) :
    s.outer? n = none := by
  have hroot : ∃ m, n = s.outermost m := by
    cases i with
    | chain c =>
      obtain ⟨l, -, hn⟩ := List.mem_flatMap.mp h
      rw [Session.ends] at hn
      cases hl : s.link? l with
      | none => simp [hl] at hn
      | some link =>
        simp only [hl, List.mem_cons, List.not_mem_nil, or_false] at hn
        rcases hn with hn | hn
        · exact ⟨_, hn⟩
        · exact ⟨_, hn⟩
    | node m => exact ⟨m, List.mem_singleton.mp h⟩
  obtain ⟨m, rfl⟩ := hroot
  exact hs.outer?_outermost m

/-- Calling again what was called before changes nothing. -/
theorem handle_again (hs : s.Linked) {calls : List Registration} {c : Registration} (hc : c ∈ calls)
    (sys : System) : (sys.handleAll s calls).handle s c = sys.handleAll s calls := by
  have hitems : ∀ i ∈ c.items s, i ∈ calls.flatMap (·.items s) := fun i hi =>
    List.mem_flatMap.mpr ⟨c, hc, hi⟩
  rw [handle_eq hs, handleAll_eq hs, adding, adding]
  congr 1
  · refine foldl_insertLast_of_subset fun n hn => mem_foldl_insertLast.mpr (.inr ?_)
    obtain ⟨i, hi, hn⟩ := List.mem_flatMap.mp hn
    exact List.mem_flatMap.mpr ⟨i, hitems i hi, hn⟩
  · refine foldl_insertLast_of_subset fun l hl => mem_foldl_insertLast.mpr (.inr ?_)
    obtain ⟨i, hi, hl⟩ := List.mem_flatMap.mp hl
    exact List.mem_flatMap.mpr ⟨i, hitems i hi, hl⟩

/-- Any member of a chain names it as well as any other. -/
theorem chainsOf_swap (hs : s.Linked) {c : ChainKey} {l l' : LinkKey} (hl : l ∈ s.chain c)
    (hl' : l' ∈ s.chain c) (before after : List LinkKey) :
    s.chainsOf (before ++ l :: after) = s.chainsOf (before ++ l' :: after) := by
  obtain ⟨link, hlink, hc⟩ := (hs.member_iff l c).mp hl
  obtain ⟨link', hlink', hc'⟩ := (hs.member_iff l' c).mp hl'
  simp [Session.chainsOf, Session.chainOf?, List.filterMap_append, hlink, hlink',
    hc, hc']

/-- A drawing shows the name, the nodes and the links of a system. -/
theorem render_congr {sys sys' : System} (hname : sys.name = sys'.name)
    (hnodes : sys.nodes = sys'.nodes) (hlinks : sys.links = sys'.links) :
    Dot.render s sys = Dot.render s sys' := by
  simp only [Dot.render, Dot.body, hname, hnodes, hlinks]

/-- The links of a new system are the members of the different chains that were named, chain after
    chain, and its nodes the outermost containers of their ends, both in order of first occurrence; a
    node that was named by itself stands where it was named. No node is there twice, and none is in a
    container. So calls can be put together or made again, and calls that name the same chains and
    nodes in the same order, by whatever links, lead to the same drawing. -/
theorem registers_chains {s : Session} (hs : s.Built) (ident : Ident) (name : String) :
    (∀ ls, (System.is { ident, name } s ls).links = (s.chainsOf ls).flatMap s.chain ∧
      (System.is { ident, name } s ls).nodes =
        ((System.is { ident, name } s ls).links.flatMap s.ends).eraseDups) ∧
    (∀ calls, (System.handleAll { ident, name } s calls).links =
        (s.itemsOf calls).flatMap (Item.members s) ∧
      (System.handleAll { ident, name } s calls).nodes =
        ((s.itemsOf calls).flatMap (Item.roots s)).eraseDups ∧
      (System.handleAll { ident, name } s calls).nodes.Nodup ∧
      ∀ n ∈ (System.handleAll { ident, name } s calls).nodes, s.outer? n = none) ∧
    (∀ (sys : System) (ls ls' : List LinkKey), (sys.is s ls).is s ls' = sys.is s (ls ++ ls')) ∧
    (∀ (sys : System) (calls : List Registration), ∀ c ∈ calls,
      (sys.handleAll s calls).handle s c = sys.handleAll s calls) ∧
    (∀ (ident' : Ident) (calls calls' : List Registration), s.itemsOf calls = s.itemsOf calls' →
      (System.handleAll { ident, name } s calls).nodes =
        (System.handleAll { ident := ident', name } s calls').nodes ∧
      (System.handleAll { ident, name } s calls).links =
        (System.handleAll { ident := ident', name } s calls').links ∧
      Dot.render s (System.handleAll { ident, name } s calls) =
        Dot.render s (System.handleAll { ident := ident', name } s calls')) ∧
    (∀ (ident' : Ident) (ls ls' : List LinkKey), s.chainsOf ls = s.chainsOf ls' →
      (System.is { ident, name } s ls).nodes =
        (System.is { ident := ident', name } s ls').nodes ∧
      (System.is { ident, name } s ls).links =
        (System.is { ident := ident', name } s ls').links ∧
      Dot.render s (System.is { ident, name } s ls) =
        Dot.render s (System.is { ident := ident', name } s ls')) ∧
    (∀ c, ∀ l ∈ s.chain c, ∀ l' ∈ s.chain c, ∀ before after,
      s.chainsOf (before ++ l :: after) = s.chainsOf (before ++ l' :: after)) := by
  have hlinked := hs.sound.linked
  refine ⟨?_, ?_, ?_, ?_, ?_, ?_, ?_⟩
  · intro ls
    rw [is_new hlinked]
    exact ⟨rfl, rfl⟩
  · intro calls
    rw [handleAll_new hlinked]
    refine ⟨rfl, rfl, nodup_eraseDups _, fun n hn => ?_⟩
    obtain ⟨i, -, hroot⟩ := List.mem_flatMap.mp (List.mem_eraseDups.mp hn)
    exact outer?_of_root hs.sound hroot
  · intro sys ls ls'
    exact List.foldl_append.symm
  · intro sys calls c hc
    exact handle_again hlinked hc sys
  · intro ident' calls calls' h
    rw [handleAll_new hlinked, handleAll_new hlinked, h]
    exact ⟨rfl, rfl, render_congr rfl rfl rfl⟩
  · intro ident' ls ls' h
    rw [is_new hlinked, is_new hlinked, h]
    exact ⟨rfl, rfl, render_congr rfl rfl rfl⟩
  · intro c l hl l' hl' before after
    exact chainsOf_swap hlinked hl hl' before after

/-- The second link of `nested` registers the first one as well, and comes after it. -/
theorem nested_registers_chain : Session.nested.Built ∧
    (System.is { ident := ⟨"system", 1⟩, name := "all" } Session.nested [⟨1⟩]).links = [⟨0⟩, ⟨1⟩] ∧
    (System.is { ident := ⟨"system", 1⟩, name := "all" } Session.nested [⟨1⟩]).nodes =
      [.group ⟨0⟩, .inst ⟨2⟩] := by
  obtain ⟨his, -⟩ := registers_chains Session.nested_built ⟨"system", 1⟩ "all"
  obtain ⟨hlinks, hnodes⟩ := his [⟨1⟩]
  have hchain : (Session.nested.chainsOf [⟨1⟩]).flatMap Session.nested.chain = [⟨0⟩, ⟨1⟩] := by decide
  refine ⟨Session.nested_built, hlinks.trans hchain, ?_⟩
  rw [hnodes, hlinks, hchain]
  decide

end System

end Schematic
