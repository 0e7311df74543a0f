import Mathlib.Logic.Function.Basic
import Mathlib.Logic.Relation
import Schematic.Document.Basic

/-! The forest of groups that a document asks for. Nothing stops groups from being inside each other in
    a circle, so they are taken one after the other, and one that would close a circle is left where it
    is. Where there is no circle, all groups are inside the ones they name. -/

namespace Schematic

/-- From the first group outwards one comes to the second, where `up` gives the group around each; no
    step outwards is one way to come there. -/
def Inside (up : String → Option String) : String → String → Prop :=
  Relation.ReflTransGen fun a b => up a = some b

open Classical in
/-- Puts one more group inside the one that its entry names, unless that one is inside it already. -/
noncomputable def graft (up : String → Option String) (g : GroupEntry) : String → Option String :=
  match g.within with
  | none => up
  | some p => if Inside up p g.id then up else Function.update up g.id (some p)

namespace Document

/-- The group around each group, when groups are taken in document order. -/
noncomputable def parents (doc : Document) : String → Option String :=
  doc.groups.foldl graft fun _ => none

/-- The document asks for a group to be in another one. -/
def Asks (doc : Document) (a b : String) : Prop := ∃ g ∈ doc.groups, g.id = a ∧ g.within = some b

end Document

variable {up : String → Option String} {doc : Document} {g : GroupEntry}

theorem graft_of_none (h : g.within = none) : graft up g = up := by
  rw [graft, h]

theorem graft_of_inside {p : String} (h : g.within = some p) (hp : Inside up p g.id) :
    graft up g = up := by
  simp only [graft, h, if_pos hp]

theorem graft_of_not_inside {p : String} (h : g.within = some p) (hp : ¬ Inside up p g.id) :
    graft up g = Function.update up g.id (some p) := by
  simp only [graft, h, if_neg hp]

/-- Only the group itself is put elsewhere. -/
theorem graft_of_ne {id : String} (h : id ≠ g.id) : graft up g id = up id := by
  cases hw : g.within with
  | none => rw [graft_of_none hw]
  | some p =>
    by_cases hp : Inside up p g.id
    · rw [graft_of_inside hw hp]
    · rw [graft_of_not_inside hw hp, Function.update_of_ne h]

theorem foldl_graft_of_not_mem : ∀ {gs : List GroupEntry} {up : String → Option String} {id : String},
    id ∉ gs.map (·.id) → gs.foldl graft up id = up id
  | [], _, _, _ => rfl
  | g :: gs, up, id, h => by
    rw [List.map_cons, List.mem_cons, not_or] at h
    rw [List.foldl_cons, foldl_graft_of_not_mem h.2, graft_of_ne h.1]

/-! ### Without circles -/

/-- Where a group is inside only what the document asks for, and not in a circle, it can be put where
    its entry says. -/
theorem graft_self_of_acyclic (hacyclic : ∀ id, ¬ Relation.TransGen doc.Asks id id)
    (hup : ∀ {a b}, up a = some b → doc.Asks a b) (hg : g ∈ doc.groups) (hnew : up g.id = none) :
    graft up g g.id = g.within := by
  cases hw : g.within with
  | none => rw [graft_of_none hw, hnew]
  | some p =>
    have hp : ¬ Inside up p g.id := by
      intro hp
      have hasks : doc.Asks g.id p := ⟨g, hg, rfl, hw⟩
      have hback : Relation.ReflTransGen doc.Asks p g.id := hp.lift id fun _ _ h => hup h
      exact hacyclic g.id (.head' hasks hback)
    rw [graft_of_not_inside hw hp, Function.update_self]

theorem asks_of_graft (hup : ∀ {a b}, up a = some b → doc.Asks a b) (hg : g ∈ doc.groups)
    {a b : String} (h : graft up g a = some b) : doc.Asks a b := by
  cases hw : g.within with
  | none => rw [graft_of_none hw] at h; exact hup h
  | some p =>
    by_cases hp : Inside up p g.id
    · rw [graft_of_inside hw hp] at h; exact hup h
    · rw [graft_of_not_inside hw hp] at h
      by_cases ha : a = g.id
      · rw [ha, Function.update_self] at h
        exact ⟨g, hg, ha.symm, hw.trans h⟩
      · rw [Function.update_of_ne ha] at h
        exact hup h

theorem foldl_graft_of_acyclic (hacyclic : ∀ id, ¬ Relation.TransGen doc.Asks id id) :
    ∀ {gs : List GroupEntry} {up : String → Option String}, gs ⊆ doc.groups →
    (gs.map (·.id)).Nodup → (∀ {a b}, up a = some b → doc.Asks a b) →
    (∀ g ∈ gs, up g.id = none) → ∀ g ∈ gs, gs.foldl graft up g.id = g.within
  | [], _, _, _, _, _, g, hg => absurd hg List.not_mem_nil
  | g :: gs, up, hsub, hnodup, hup, hnew, g', hg' => by
    obtain ⟨hg, hrest⟩ := List.cons_subset.mp hsub
    rw [List.map_cons, List.nodup_cons] at hnodup
    obtain ⟨hfirst, hothers⟩ := List.forall_mem_cons.mp hnew
    rw [List.foldl_cons]
    rcases List.mem_cons.mp hg' with rfl | hg'
    · rw [foldl_graft_of_not_mem hnodup.1, graft_self_of_acyclic hacyclic hup hg hfirst]
    · refine foldl_graft_of_acyclic hacyclic hrest hnodup.2 (asks_of_graft hup hg) ?_ g' hg'
      intro other hother
      have hne : other.id ≠ g.id := fun h => hnodup.1 (List.mem_map.mpr ⟨other, hother, h⟩)
      rw [graft_of_ne hne, hothers other hother]

/-- Without circles every group is inside the one that its entry names. -/
theorem Document.parents_of_acyclic (hacyclic : ∀ id, ¬ Relation.TransGen doc.Asks id id)
    (hnodup : (doc.groups.map (·.id)).Nodup) (hg : g ∈ doc.groups) : doc.parents g.id = g.within :=
  foldl_graft_of_acyclic hacyclic (List.Subset.refl _) hnodup (by rintro _ _ ⟨⟩) (fun _ _ => rfl) g hg

end Schematic
