import Schematic.Proofs.Builder
import Schematic.Proofs.Checked.Session
import Schematic.Proofs.Session.Notes
import Schematic.Proofs.Session.Runs

/-! Labelling passes. A pass adds to every instance the texts of the labels that list it, in the order
    of the labels and each as often as the instance is listed; it never fails on instances of the
    session and changes nothing else. So passes over different instances can be swapped, and a pass
    can be split anywhere. -/

namespace Schematic

/-- What labels say about an instance, one label after the other. -/
def Label.said (ls : List Label) (i : InstanceKey) : String :=
  String.join (ls.map fun l => repeated l.text l.targets i)

theorem Label.said_of_not_mem {i : InstanceKey} : ∀ {ls : List Label},
    (∀ l ∈ ls, i ∉ l.targets) → Label.said ls i = ""
  | [], _ => rfl
  | l :: ls, h => by
    obtain ⟨hl, hls⟩ := List.forall_mem_cons.mp h
    have hnone : repeated l.text l.targets i = "" := by
      rw [repeated, List.count_eq_zero.mpr hl]
      rfl
    have hrest := said_of_not_mem hls
    rw [said] at hrest
    rw [said, List.map_cons, String.join_cons, hnone, hrest, String.append_empty]

/-! ### With nothing taken for granted -/

namespace Checked

/-- The session after a label; each target has to be there. -/
def applyLabel (s : Session) (l : Label) : Option Session :=
  l.targets.foldlM (fun s i => editInstance s i fun inst => { inst with notes := inst.notes ++ l.text }) s

/-- The session after some labels. -/
def applyLabels (s : Session) (ls : List Label) : Option Session := ls.foldlM applyLabel s

/-- Checked changes that do not fail where they begin, and leave all elements there, do not fail. -/
theorem foldlM_eq_of_grows {α : Type} {f : Session → α → Option Session} {g : Session → α → Session}
    {p : Session → α → Prop} (hf : ∀ {s a}, p s a → f s a = some (g s a) ∧ Session.Grows s (g s a))
    (hmono : ∀ {s t a}, Session.Grows s t → p s a → p t a) :
    ∀ {as : List α} {s : Session}, (∀ a ∈ as, p s a) → as.foldlM f s = some (as.foldl g s)
  | [], _, _ => rfl
  | a :: as, s, h => by
    obtain ⟨ha, has⟩ := List.forall_mem_cons.mp h
    obtain ⟨hsome, hgrows⟩ := hf ha
    rw [List.foldlM_cons, hsome, List.foldl_cons]
    exact foldlM_eq_of_grows (p := p) hf hmono fun b hb => hmono hgrows (has b hb)

theorem applyLabel_eq {s : Session} {l : Label} (hl : ∀ i ∈ l.targets, s.HasInstance i) :
    applyLabel s l = some (s.applyLabel l) :=
  foldlM_eq_of_grows (p := fun s i => s.HasInstance i)
    (fun {_ i} hi => ⟨if_pos hi, Session.grows_run (.annotate i l.text)⟩)
    (fun hgrows hi => hgrows.hasInstance hi) hl

theorem applyLabels_eq {s : Session} {ls : List Label}
    (hls : ∀ l ∈ ls, ∀ i ∈ l.targets, s.HasInstance i) :
    applyLabels s ls = some (s.applyLabels ls) := by
  refine foldlM_eq_of_grows (p := fun s l => ∀ i ∈ l.targets, s.HasInstance i) (fun {s l} hl => ?_)
    (fun hgrows hl i hi => hgrows.hasInstance (hl i hi)) hls
  refine ⟨applyLabel_eq hl, ?_⟩
  have hone : s.applyLabels [l] = s.applyLabel l := rfl
  have hleads : s.Leads (s.applyLabels [l]) := Session.leads_applyLabels (by simpa using hl)
  exact hone ▸ hleads.grows

end Checked

namespace Session

/-- `t` is `s` after a pass with some labels. -/
structure Labelled (s : Session) (ls : List Label) (t : Session) : Prop where
  instance? : ∀ i, t.instance? i =
    (s.instance? i).map fun inst => { inst with notes := inst.notes ++ Label.said ls i }
  theme : t.theme = s.theme
  counter : t.counter = s.counter
  hosts : t.hosts = s.hosts
  groups : t.groups = s.groups
  links : t.links = s.links
  chains : t.chains = s.chains
  identOf? : ∀ n, t.identOf? n = s.identOf? n
  hostOf? : ∀ i, t.hostOf? i = s.hostOf? i
  groupOf? : ∀ n, t.groupOf? n = s.groupOf? n
  isMany : ∀ i, t.isMany i = s.isMany i

variable {s : Session} {ls ms : List Label}

theorem applyLabels_eq_said (ls : List Label) (s : Session) :
    s.applyLabels ls = s.addNotes (Label.said ls) := applyLabels_eq ls s

theorem labelled_applyLabels (ls : List Label) (s : Session) : s.Labelled ls (s.applyLabels ls) := by
  rw [applyLabels_eq_said]
  refine ⟨instance?_addNotes _, rfl, rfl, rfl, rfl, rfl, rfl, fun n => ?_, hostOf?_addNotes _,
    groupOf?_addNotes _, isMany_addNotes _⟩
  cases n with
  | inst i =>
    simp only [Session.identOf?, instance?_addNotes, Option.map_map]
    rfl
  | host h => rfl
  | group g => rfl

/-- Where no instance is listed in both, it does not matter which labels are first. -/
theorem applyLabels_swap (hapart : ∀ l ∈ ls, ∀ m ∈ ms, ∀ i ∈ l.targets, i ∉ m.targets) :
    (s.applyLabels ls).applyLabels ms = (s.applyLabels ms).applyLabels ls := by
  simp only [applyLabels_eq_said, addNotes_addNotes]
  congr 1
  funext i
  by_cases hi : ∀ l ∈ ls, i ∉ l.targets
  · rw [Label.said_of_not_mem hi, String.append_empty, String.empty_append]
  · have hms : ∀ m ∈ ms, i ∉ m.targets := fun m hm hmem =>
      hi fun l hl hli => hapart l hl m hm i hli hmem
    rw [Label.said_of_not_mem hms, String.append_empty, String.empty_append]

theorem applyLabels_append : s.applyLabels (ls ++ ms) = (s.applyLabels ls).applyLabels ms :=
  List.foldl_append

/-- A pass of labels over instances of the session succeeds, and adds to their notes what the labels
    say about them, and does nothing else. A pass over other instances can be done before it as well
    as after it; and a pass over two lists of labels is a pass over one and then over the other. -/
theorem pass_labels (hs : s.Reachable) (hls : ∀ l ∈ ls, ∀ i ∈ l.targets, s.HasInstance i) :
    Checked.applyLabels s ls = some (s.applyLabels ls) ∧ (s.applyLabels ls).Reachable ∧
      s.Labelled ls (s.applyLabels ls) ∧
      (∀ ms : List Label, (∀ l ∈ ls, ∀ m ∈ ms, ∀ i ∈ l.targets, i ∉ m.targets) →
        (s.applyLabels ls).applyLabels ms = (s.applyLabels ms).applyLabels ls) ∧
      ∀ ms : List Label, s.applyLabels (ls ++ ms) = (s.applyLabels ls).applyLabels ms :=
  ⟨Checked.applyLabels_eq hls, (leads_applyLabels hls).reachable hs, labelled_applyLabels ls s,
    fun _ hapart => applyLabels_swap hapart, fun _ => applyLabels_append⟩

/-- Three instances, two of which are labelled. -/
def trio : Session :=
  [.newInstance "api", .newInstance "db", .newInstance "log"].foldl Step.run (fresh .dark)

def remarks : List Label := [⟨[⟨0⟩, ⟨1⟩], "<BR/>eu"⟩, ⟨[⟨1⟩, ⟨0⟩, ⟨1⟩], "<BR/>beta"⟩]

theorem trio_labelled :
    (trio.Reachable ∧ (∀ l ∈ remarks, ∀ i ∈ l.targets, trio.HasInstance i) ∧
      ∀ l ∈ remarks, ∀ i ∈ l.targets, i ∉ ([⟨2⟩] : List InstanceKey)) ∧
    ((trio.applyLabels remarks).instance? ⟨1⟩).map (·.notes) = some "<BR/>eu<BR/>beta<BR/>beta" ∧
    (trio.applyLabels remarks).applyLabels [⟨[⟨2⟩], "<BR/>team"⟩] =
      (trio.applyLabels [⟨[⟨2⟩], "<BR/>team"⟩]).applyLabels remarks := by
  have hthroughout : Step.Throughout Step.Fits (fresh .dark)
      [.newInstance "api", .newInstance "db", .newInstance "log"] := by decide
  have hreach : trio.Reachable := hthroughout.reachable (.fresh .dark)
  have hfits : ∀ l ∈ remarks, ∀ i ∈ l.targets, trio.HasInstance i := by decide
  have hapart : ∀ l ∈ remarks, ∀ i ∈ l.targets, i ∉ ([⟨2⟩] : List InstanceKey) := by decide
  obtain ⟨-, -, hlabelled, hswap, -⟩ := pass_labels hreach hfits
  refine ⟨⟨hreach, hfits, hapart⟩, ?_, hswap _ (by simpa using hapart)⟩
  rw [hlabelled.instance?, Option.map_map]
  decide +kernel

end Session

end Schematic
