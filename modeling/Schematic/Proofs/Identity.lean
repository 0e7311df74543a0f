import Mathlib.Algebra.Group.Nat.Defs
import Schematic.Proofs.Builder
import Schematic.Proofs.Printed
import Schematic.Proofs.Session.Edits
import Schematic.Proofs.Session.Paths
import Schematic.Proofs.Session.Runs

/-! Identity over a whole session. Elements of all kinds draw their numbers from one counter, and so
    the numbers give the order in which they were made. A step makes one element, whose ident nothing
    else has, or none; and none changes the ident of an element that is there. -/

namespace Schematic

/-- Whatever has an ident. -/
inductive Element where
  | node (n : Node)
  | link (l : LinkKey)
  | system (sys : System)

namespace Element

/-- The name that idents give the kind of the element. -/
def kind : Element → String
  | .node (.inst _) => "instance"
  | .node (.host _) => "host"
  | .node (.group _) => "group"
  | .link _ => "link"
  | .system _ => "system"

/-- The position of the element among those of its kind. A session does not keep its systems. -/
def position? : Element → Option Nat
  | .node (.inst i) => some i.index
  | .node (.host h) => some h.index
  | .node (.group g) => some g.index
  | .link l => some l.index
  | .system _ => none

def ident? (s : Session) : Element → Option Ident
  | .node n => s.identOf? n
  | .link l => (s.link? l).map (·.ident)
  | .system sys => some sys.ident

/-- Where both have a position among elements of one kind, the first one comes earlier. -/
def Earlier (a b : Element) : Prop :=
  a.kind = b.kind → ∀ i j, a.position? = some i → b.position? = some j → i < j

end Element

/-- The element that a step makes, if any. -/
def Step.makes (s : Session) : Step → List Element
  | .newInstance name => [.node (.inst (s.newInstance name).1)]
  | .newHost => [.node (.host s.newHost.1)]
  | .newGroup name => [.node (.group (s.newGroup name).1)]
  | .newSystem name => [.system (s.newSystem name).1]
  | .link source target => [.link (s.newLink source target none).1]
  | .extend l next => [.link (s.extend l next).1]
  | _ => []

/-- All that is registered with a system, or said about it, from the first to the second. -/
inductive System.Becomes : System → System → Prop where
  | refl (sys : System) : Becomes sys sys
  | is {sys sys' : System} (s : Session) (ls : List LinkKey) : Becomes sys sys' →
      Becomes sys (sys'.is s ls)
  | contains {sys sys' : System} (s : Session) (ns : List Node) : Becomes sys sys' →
      Becomes sys (sys'.contains s ns)
  | restrict {sys sys' : System} (processors : List String) : Becomes sys sys' →
      Becomes sys (sys'.restrict processors)
  | rename {sys sys' : System} (name : String) : Becomes sys sys' → Becomes sys (sys'.rename name)

namespace System

theorem ident_addLink (sys : System) (s : Session) (l : LinkKey) :
    (sys.addLink s l).ident = sys.ident := by
  rw [addLink]
  split <;> rfl

theorem ident_addChain (sys : System) (s : Session) (l : LinkKey) :
    (sys.addChain s l).ident = sys.ident := by
  rw [addChain]
  split
  · rfl
  · next link _ =>
    exact List.foldlRecOn (motive := fun r : System => r.ident = sys.ident) (s.chain link.chain)
      (fun sys l => sys.addLink s l) rfl fun r h l _ => (ident_addLink r s l).trans h

theorem Becomes.ident {sys sys' : System} (h : sys.Becomes sys') : sys'.ident = sys.ident := by
  induction h with
  | refl => rfl
  | is s ls _ ih =>
    exact List.foldlRecOn (motive := fun r : System => r.ident = sys.ident) ls
      (fun r l => r.addChain s l) ih fun r h l _ => (ident_addChain r s l).trans h
  | contains s ns _ ih =>
    exact List.foldlRecOn (motive := fun r : System => r.ident = sys.ident) ns
      (fun r n => r.register s n) ih fun _ h _ _ => h
  | restrict _ _ ih => exact ih
  | rename _ _ ih => exact ih

end System

namespace Session

/-- The counter and all idents are the same in both. -/
structure SameIdents (s t : Session) : Prop where
  counter : t.counter = s.counter
  ident? : ∀ a : Element, a.ident? t = a.ident? s

/-- `t` is `s` with one more element, which has the next number and comes last of its kind. -/
structure Makes (s t : Session) (e : Element) : Prop where
  next : t.counter.next = s.counter.next + 1
  ident? : e.ident? t = some ⟨e.kind, s.counter.next⟩
  others : ∀ a : Element, (a.ident? s).isSome → a.ident? t = a.ident? s
  only : ∀ a : Element, (a.ident? t).isSome → (a.ident? s).isSome ∨ a = e
  last : ∀ a : Element, (a.ident? s).isSome → a.Earlier e

variable {s t : Session}

theorem Edits.sameIdents {p : Node → Prop} (h : Edits p s t) : SameIdents s t where
  counter := h.counter
  ident? a := by
    cases a with
    | node n => exact h.identOf? n
    | link l => rw [Element.ident?, link?, h.links, Element.ident?, link?]
    | system sys => rfl

theorem sameIdents_modify (l : LinkKey) (m : Modifier) : SameIdents s (s.modify l m) where
  counter := by rw [modify_eq]; rfl
  ident? a := by
    rw [modify_eq]
    cases a with
    | node n => cases n <;> rfl
    | link k =>
      have hident : ∀ many link, (m.apply many link).ident = link.ident := fun _ _ => by
        cases m <;> rfl
      rw [Element.ident?, link?_modifyLink]
      split
      · rw [Option.map_map, Element.ident?]
        exact congrArg (Option.map · _) (funext fun link => hident _ link)
      · rfl
    | system sys => rfl

/-- A node is made with a record of its own that has the next number. -/
theorem makes_node {n : Node} {r : Record} (hcounter : t.counter.next = s.counter.next + 1)
    (hlinks : t.links = s.links) (hrecord : ∀ m, t.record? m = if m = n then some r else s.record? m)
    (hident : r.ident = ⟨Element.kind (.node n), s.counter.next⟩)
    (hlast : ∀ m, s.HasNode m → Element.Earlier (.node m) (.node n)) :
    Makes s t (.node n) := by
  have hnew : ¬ s.HasNode n := by
    intro hn
    obtain ⟨i, hi⟩ : ∃ i, Element.position? (.node n) = some i := by cases n <;> exact ⟨_, rfl⟩
    exact Nat.lt_irrefl i (hlast n hn rfl i i hi hi)
  have hother : ∀ m, m ≠ n → t.identOf? m = s.identOf? m := fun m hm => by
    rw [identOf?_eq, hrecord, if_neg hm, identOf?_eq]
  have hlink : ∀ l, Element.ident? t (.link l) = Element.ident? s (.link l) := fun l => by
    rw [Element.ident?, link?, hlinks, Element.ident?, link?]
  refine ⟨hcounter, ?_, fun a ha => ?_, fun a ha => ?_, fun a ha => ?_⟩
  · rw [Element.ident?, identOf?_eq, hrecord, if_pos rfl, Option.map_some, hident]
  · cases a with
    | node m => exact hother m fun hm => hnew (hm ▸ hasNode_iff_identOf?.mpr ha)
    | link l => exact hlink l
    | system sys => rfl
  · cases a with
    | node m =>
      by_cases hm : m = n
      · exact .inr (congrArg _ hm)
      · rw [Element.ident?, hother m hm] at ha
        exact .inl ha
    | link l => rw [hlink] at ha; exact .inl ha
    | system sys => exact .inl rfl
  · cases a with
    | node m => exact hlast m (hasNode_iff_identOf?.mpr ha)
    | link l => cases n <;> exact fun h => absurd h (by simp [Element.kind])
    | system sys => cases n <;> exact fun h => absurd h (by simp [Element.kind])

theorem makes_newLink (source target : InstanceKey) (c : Option ChainKey) :
    Makes s (s.newLink source target c).2 (.link s.nextLink) := by
  have hother : ∀ l, l ≠ s.nextLink →
      Element.ident? (s.newLink source target c).2 (.link l) = Element.ident? s (.link l) := by
    intro l hl
    rw [Element.ident?, link?_newLink, if_neg hl, Element.ident?]
  have hnode : ∀ n, Element.ident? (s.newLink source target c).2 (.node n) =
      Element.ident? s (.node n) := by
    intro n
    rw [newLink_eq]
    cases n <;> rfl
  refine ⟨by rw [newLink_eq]; rfl, ?_, fun a ha => ?_, fun a ha => ?_, fun a ha => ?_⟩
  · rw [Element.ident?, link?_newLink, if_pos rfl]
    rfl
  · cases a with
    | node n => exact hnode n
    | link l =>
      refine hother l ?_
      rintro rfl
      rw [Element.ident?, link?_nextLink] at ha
      cases ha
    | system sys => rfl
  · cases a with
    | node n => rw [hnode] at ha; exact .inl ha
    | link l =>
      by_cases hl : l = s.nextLink
      · exact .inr (congrArg _ hl)
      · rw [hother l hl] at ha; exact .inl ha
    | system sys => exact .inl rfl
  · cases a with
    | node n => cases n <;> exact fun h => absurd h (by simp [Element.kind])
    | link l =>
      rintro - i j ⟨⟩ ⟨⟩
      refine hasLink_iff.mpr (Option.isSome_iff_exists.mp ?_)
      rwa [Element.ident?, Option.isSome_map] at ha
    | system sys => exact fun h => absurd h (by simp [Element.kind])

/-- A session does not keep the systems that are made of it. -/
theorem makes_newSystem (name : String) :
    Makes s (s.newSystem name).2 (.system (s.newSystem name).1) := by
  have hsame : ∀ a : Element, a.ident? (s.newSystem name).2 = a.ident? s := by
    rintro (n | l | sys)
    · cases n <;> rfl
    · rfl
    · rfl
  refine ⟨rfl, rfl, fun a _ => hsame a, fun a ha => .inl (hsame a ▸ ha), ?_⟩
  rintro a - - i j - ⟨⟩

/-- All that a step can do to idents: nothing, or make one element. -/
theorem run_makes {t : Step} (ht : t.Fits s) : t.makes s = [] ∧ SameIdents s (t.run s) ∨
    ∃ e, t.makes s = [e] ∧ Makes s (t.run s) e := by
  cases t with
  | newInstance name =>
    refine .inr ⟨_, rfl, makes_node rfl rfl (record?_newInstance name) rfl ?_⟩
    rintro (i | h | g) hm hkind
    · rintro _ _ ⟨⟩ ⟨⟩; exact hm
    all_goals exact absurd hkind (by simp [Element.kind])
  | newHost =>
    refine .inr ⟨_, rfl, makes_node rfl rfl record?_newHost rfl ?_⟩
    rintro (i | h | g) hm hkind
    · exact absurd hkind (by simp [Element.kind])
    · rintro _ _ ⟨⟩ ⟨⟩; exact hm
    · exact absurd hkind (by simp [Element.kind])
  | newGroup name =>
    refine .inr ⟨_, rfl, makes_node rfl rfl (record?_newGroup name) rfl ?_⟩
    rintro (i | h | g) hm hkind
    · exact absurd hkind (by simp [Element.kind])
    · exact absurd hkind (by simp [Element.kind])
    · rintro _ _ ⟨⟩ ⟨⟩; exact hm
  | newSystem name => exact .inr ⟨_, rfl, makes_newSystem name⟩
  | link source target => exact .inr ⟨_, rfl, makes_newLink source target none⟩
  | extend l next =>
    obtain ⟨link, hlink⟩ := hasLink_iff.mp ht.1
    have hextend : s.extend l next = s.newLink link.target next (some link.chain) := by
      rw [extend, hlink]
    refine .inr ⟨.link s.nextLink, ?_, ?_⟩
    · rw [Step.makes, hextend]; rfl
    · rw [Step.run, hextend]; exact makes_newLink _ _ _
  | setTheme theme =>
    refine .inl ⟨rfl, rfl, ?_⟩
    rintro (n | l | sys)
    · cases n <;> rfl
    · rfl
    · rfl
  | annotate i text => exact .inl ⟨rfl, (Edits.annotate i text).sameIdents⟩
  | replicateInstance i => exact .inl ⟨rfl, (Edits.replicateInstance i).sameIdents⟩
  | replicateHost h => exact .inl ⟨rfl, (Edits.replicateHost h).sameIdents⟩
  | placeOn i h => exact .inl ⟨rfl, (Edits.placeOn i h).sameIdents⟩
  | placeIn n g => exact .inl ⟨rfl, (Edits.placeIn n g).sameIdents⟩
  | modify l m => exact .inl ⟨rfl, sameIdents_modify l m⟩

/-! ### Runs -/

/-- An ident stays as it is. -/
theorem Leads.ident? (h : Leads s t) {a : Element} (ha : (a.ident? s).isSome) :
    a.ident? t = a.ident? s := by
  induction h with
  | refl => rfl
  | tail _ hstep ih =>
    obtain ⟨step, hfits, rfl⟩ := hstep
    rcases run_makes hfits with ⟨-, hsame⟩ | ⟨e, -, hmakes⟩
    · exact (hsame.ident? a).trans ih
    · exact (hmakes.others a (ih ▸ ha)).trans ih

/-- The list has the elements of the session in the order in which they were made. -/
structure Numbers (s : Session) (es : List Element) : Prop where
  next : s.counter.next = 100 + .ofNat es.length
  ident? : ∀ {n : Nat} {e : Element}, es[n]? = some e → e.ident? s = some ⟨e.kind, 100 + .ofNat n⟩
  complete : ∀ e : Element, (e.ident? s).isSome → e ∈ es ∨ ∃ sys, e = .system sys
  earlier : es.Pairwise Element.Earlier

theorem numbers_fresh (theme : Theme) : Numbers (fresh theme) [] := by
  refine ⟨rfl, fun h => by simp at h, ?_, List.Pairwise.nil⟩
  rintro (n | l | sys) h
  · cases n <;> simp [Element.ident?, identOf?, instance?, host?, group?, fresh] at h
  · simp [Element.ident?, link?, fresh] at h
  · exact .inr ⟨sys, rfl⟩

/-- A step goes on with the list and the numbers. -/
theorem numbers_run {t : Step} {es : List Element} (ht : t.Fits s) (h : s.Numbers es) :
    (t.run s).Numbers (es ++ t.makes s) := by
  rcases run_makes ht with ⟨hnone, hsame⟩ | ⟨e, hone, hmakes⟩
  · rw [hnone, List.append_nil]
    refine ⟨hsame.counter ▸ h.next, fun he => (hsame.ident? _).trans (h.ident? he), fun a ha => ?_,
      h.earlier⟩
    rw [hsame.ident?] at ha
    exact h.complete a ha
  · have hmem : ∀ a ∈ es, (a.ident? s).isSome := fun a ha => by
      obtain ⟨n, hn⟩ := List.getElem?_of_mem ha
      rw [h.ident? hn]
      rfl
    rw [hone]
    refine ⟨?_, fun {n a} ha => ?_, fun a ha => ?_, ?_⟩
    · rw [hmakes.next, h.next, List.length_append, List.length_singleton, UInt64.ofNat_add,
        UInt64.add_assoc]
      rfl
    · rw [List.getElem?_append] at ha
      split at ha
      · rw [hmakes.others a (hmem a (List.mem_of_getElem? ha))]
        exact h.ident? ha
      · obtain ⟨hlt, rfl⟩ := List.getElem?_eq_some_iff.mp ha
        rw [List.length_singleton] at hlt
        rw [List.getElem_singleton, hmakes.ident?, h.next]
        congr 4
        omega
    · rcases hmakes.only a ha with hold | rfl
      · exact (h.complete a hold).imp_left fun hin => List.mem_append_left _ hin
      · exact .inl (List.mem_append_right _ (List.mem_singleton_self _))
    · rw [List.pairwise_append]
      refine ⟨h.earlier, List.pairwise_singleton .., fun a ha b hb => ?_⟩
      rw [List.mem_singleton.mp hb]
      exact hmakes.last a (hmem a ha)

/-- The elements that steps make of a fresh session, in their order. -/
def made (theme : Theme) (ts : List Step) : List Element := Step.collect Step.makes (fresh theme) ts

theorem MadeBy.numbers {theme : Theme} {ts : List Step} (h : s.MadeBy theme ts) :
    s.Numbers (made theme ts) := by
  obtain ⟨hfits, rfl⟩ := h
  have hrun := Step.collect_keeps (p := Step.Fits) (P := Numbers)
    (fun _ ht _ h => numbers_run ht h) (.fresh theme) hfits hfits (numbers_fresh theme)
  rwa [List.nil_append] at hrun

/-! ### While the counter has not come around -/

/-- The list has every element of the session; the numbers count on from 100 through it, and they alone
    tell elements apart. -/
structure Identified (s : Session) (es : List Element) : Prop where
  complete : ∀ e : Element, (e.ident? s).isSome → e ∈ es ∨ ∃ sys, e = .system sys
  number : ∀ (n : Nat) (e : Element), es[n]? = some e →
    ∃ a, e.ident? s = some a ∧ a.kind = e.kind ∧ a.number.toNat = 100 + n
  /-- Idents compare as the elements come in the list, whatever their kinds. -/
  order : ∀ (m n : Nat) (d e : Element) (a b : Ident), es[m]? = some d → es[n]? = some e →
    d.ident? s = some a → e.ident? s = some b →
      compare a b = compare m n ∧ (a == b) = decide (m = n) ∧ a.before b = decide (m < n)
  /-- Within a kind, positions compare as idents do. -/
  position : ∀ (d e : Element) (a b : Ident) (i j : Nat), d ∈ es → e ∈ es → d.kind = e.kind →
    d.position? = some i → e.position? = some j → d.ident? s = some a → e.ident? s = some b →
      compare i j = compare a b
  /-- No two names that can be drawn are the same, be they of instances or of clusters. -/
  names : ((es.filterMap (Element.ident? s)).flatMap Ident.names).Nodup

section Order

variable {a b : Ident} {m n : Nat} (ha : a.number.toNat = 100 + m) (hb : b.number.toNat = 100 + n)
include ha hb

theorem number_lt_iff : a.number < b.number ↔ m < n := by
  rw [UInt64.lt_iff_toNat_lt, ha, hb, Nat.add_lt_add_iff_left]

theorem number_eq_iff : a.number = b.number ↔ m = n := by
  rw [← UInt64.toNat_inj, ha, hb, Nat.add_left_cancel_iff]

theorem compare_number : compare a b = compare m n := by
  show compareOfLessAndEq a.number b.number = compareOfLessAndEq m n
  simp only [compareOfLessAndEq, number_lt_iff ha hb, number_eq_iff ha hb]

end Order

namespace Numbers

variable {es : List Element}

theorem number (h : s.Numbers es) (hfew : es.length < 2 ^ 64 - 100) {n : Nat} {e : Element}
    {a : Ident} (he : es[n]? = some e) (ha : e.ident? s = some a) :
    a.kind = e.kind ∧ a.number.toNat = 100 + n := by
  rw [h.ident? he] at ha
  cases ha
  have hlt := (List.getElem?_eq_some_iff.mp he).1
  refine ⟨rfl, ?_⟩
  rw [UInt64.toNat_add, UInt64.toNat_ofNat']
  show (100 + n % 2 ^ 64) % 2 ^ 64 = 100 + n
  omega

/-- Positions grow along the list. -/
theorem position_lt (h : s.Numbers es) {m n i j : Nat} {d e : Element} (hd : es[m]? = some d)
    (he : es[n]? = some e) (hmn : m < n) (hkind : d.kind = e.kind) (hi : d.position? = some i)
    (hj : e.position? = some j) : i < j := by
  obtain ⟨hm, rfl⟩ := List.getElem?_eq_some_iff.mp hd
  obtain ⟨hn, rfl⟩ := List.getElem?_eq_some_iff.mp he
  exact List.pairwise_iff_getElem.mp h.earlier m n hm hn hmn hkind i j hi hj

theorem identified (h : s.Numbers es) (hfew : es.length < 2 ^ 64 - 100) : s.Identified es := by
  refine ⟨h.complete, fun n e he => ⟨_, h.ident? he, h.number hfew he (h.ident? he)⟩, ?_, ?_, ?_⟩
  · intro m n d e a b hd he ha hb
    have hm := (h.number hfew hd ha).2
    have hn := (h.number hfew he hb).2
    exact ⟨compare_number hm hn, decide_eq_decide.mpr (number_eq_iff hm hn),
      decide_eq_decide.mpr (number_lt_iff hm hn)⟩
  · intro d e a b i j hd he hkind hi hj ha hb
    obtain ⟨m, hm⟩ := List.getElem?_of_mem hd
    obtain ⟨n, hn⟩ := List.getElem?_of_mem he
    rw [compare_number (h.number hfew hm ha).2 (h.number hfew hn hb).2]
    rcases Nat.lt_trichotomy m n with hmn | rfl | hmn
    · rw [Nat.compare_eq_lt.mpr hmn, Nat.compare_eq_lt.mpr (h.position_lt hm hn hmn hkind hi hj)]
    · obtain rfl : d = e := Option.some.inj (hm.symm.trans hn)
      obtain rfl : i = j := Option.some.inj (hi.symm.trans hj)
      rw [Nat.compare_eq_eq.mpr rfl, Nat.compare_eq_eq.mpr rfl]
    · rw [Nat.compare_eq_gt.mpr hmn, Nat.compare_eq_gt.mpr (h.position_lt hn hm hmn hkind.symm hj hi)]
  · refine Ident.nodup_names (List.pairwise_filterMap.mpr ?_)
    refine List.pairwise_iff_getElem.mpr fun m n hm hn hmn a ha b hb hab => ?_
    have hnum := (h.number hfew (List.getElem?_eq_getElem hm) ha).2
    have hnum' := (h.number hfew (List.getElem?_eq_getElem hn) hb).2
    rw [hab] at hnum
    omega

end Numbers

/-- Identity over a whole session. Some steps make every session that was built; and whichever steps
    do, as long as they make fewer elements than the counter has numbers from 100 on, the elements are
    numbered as they were made. No call gives any of them another ident, and nothing that becomes of
    a system gives it one. -/
theorem identity_over_session {s : Session} (hs : s.Built) :
    (∃ theme ts, s.MadeBy theme ts) ∧
      (∀ theme ts, s.MadeBy theme ts → (made theme ts).length < 2 ^ 64 - 100 →
        s.Identified (made theme ts)) ∧
      (∀ cs (e : Element), Call.AllFit s cs → (e.ident? s).isSome →
        e.ident? (cs.foldl Call.run s) = e.ident? s) ∧
      ∀ sys sys' : System, sys.Becomes sys' → sys'.ident = sys.ident := by
  refine ⟨hs.reachable.madeBy, fun theme ts hmade hfew => hmade.numbers.identified hfew, ?_, ?_⟩
  · exact fun cs e hcs he => (leads_calls hcs).ident? he
  · exact fun _ _ h => h.ident

/-- Steps that make an element of each kind, and some that make none. -/
def oneOfEach : List Step :=
  [.newInstance "web", .newHost, .newGroup none, .placeOn ⟨0⟩ ⟨0⟩, .newInstance "api", .link ⟨0⟩ ⟨1⟩,
    .placeIn (.inst ⟨0⟩) ⟨0⟩, .newSystem "all", .newInstance "db"]

/-- The third instance comes after all the others. -/
theorem oneOfEach_identity : (oneOfEach.foldl Step.run (fresh .dark)).Built ∧
    (made .dark oneOfEach).length < 2 ^ 64 - 100 ∧
    (made .dark oneOfEach)[6]? = some (.node (.inst ⟨2⟩)) ∧
    ∃ a, (oneOfEach.foldl Step.run (fresh .dark)).identOf? (.inst ⟨2⟩) = some a ∧
      a.kind = "instance" ∧ a.number.toNat = 106 := by
  have hfits : Call.AllFit (fresh .dark) (oneOfEach.map .step) := by decide
  have hbuilt := (Built.fresh .dark).foldl hfits
  rw [List.foldl_map] at hbuilt
  have hfew : (made .dark oneOfEach).length < 2 ^ 64 - 100 := by decide
  obtain ⟨-, hidentified, -⟩ := identity_over_session hbuilt
  exact ⟨hbuilt, hfew, rfl, (hidentified .dark oneOfEach ⟨by decide, rfl⟩ hfew).number 6 _ rfl⟩

end Session

end Schematic
