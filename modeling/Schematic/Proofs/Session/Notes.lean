import Schematic.Proofs.Session.Chains
import Schematic.Session.Labels

/-! Notes say nothing about anything else. Adding to the notes of instances can be put before or after
    any placement and any link: neither looks at notes, and neither changes them. Labels do nothing but
    add to notes, to each instance as often as they list it. -/

namespace Schematic

/-- A text as often as a value is listed. -/
def repeated {α : Type} [DecidableEq α] (text : String) (targets : List α) (x : α) : String :=
  String.join (List.replicate (targets.count x) text)

namespace Session

/-- Adds to the notes of every instance. -/
def addNotes (s : Session) (a : InstanceKey → String) : Session :=
  { s with
    instances := s.instances.mapIdx fun j inst => { inst with notes := inst.notes ++ a ⟨j⟩ } }

variable {s : Session} (a : InstanceKey → String)

theorem instance?_addNotes (i : InstanceKey) : (s.addNotes a).instance? i =
    (s.instance? i).map fun inst => { inst with notes := inst.notes ++ a i } := by
  rw [instance?, addNotes, Array.getElem?_mapIdx]
  rfl

/-! ### What does not look at notes -/

@[simp] theorem hostOf?_addNotes (i : InstanceKey) : (s.addNotes a).hostOf? i = s.hostOf? i := by
  rw [hostOf?, hostOf?, instance?_addNotes]
  cases s.instance? i <;> rfl

@[simp] theorem groupOf?_addNotes (n : Node) : (s.addNotes a).groupOf? n = s.groupOf? n := by
  cases n with
  | inst i =>
    simp only [groupOf?, instance?_addNotes]
    cases s.instance? i <;> rfl
  | host h => rfl
  | group g => rfl

@[simp] theorem isMany_addNotes (i : InstanceKey) : (s.addNotes a).isMany i = s.isMany i := by
  simp only [isMany, instance?_addNotes]
  cases s.instance? i <;> rfl

@[simp] theorem standIn_addNotes (n : Node) : (s.addNotes a).standIn n = s.standIn n := by
  cases n with
  | inst i => simp only [standIn, hostOf?_addNotes]
  | host h => rfl
  | group g => rfl

theorem outer?_addNotes (n : Node) : (s.addNotes a).outer? n = s.outer? n := by
  cases n with
  | inst i => simp only [outer?, hostOf?_addNotes, groupOf?_addNotes]
  | host h => rfl
  | group g => rfl

theorem ancestorsUpTo_addNotes : ∀ (bound : Nat) (n : Node),
    (s.addNotes a).ancestorsUpTo bound n = s.ancestorsUpTo bound n
  | 0, _ => rfl
  | bound + 1, n => by
    rw [ancestorsUpTo, ancestorsUpTo, outer?_addNotes]
    cases s.outer? n with
    | none => rfl
    | some o => simp only [ancestorsUpTo_addNotes bound o]

@[simp] theorem encloses_addNotes (n : Node) (g : GroupKey) :
    (s.addNotes a).encloses n g = s.encloses n g := by
  cases n with
  | inst i => rfl
  | host h => rfl
  | group k =>
    have hancestors : (s.addNotes a).ancestors (.group g) = s.ancestors (.group g) :=
      ancestorsUpTo_addNotes a _ _
    simp only [encloses, hancestors]

/-! ### What does not change them -/

/-- A change of an instance that leaves its notes alone, whatever they are. -/
theorem modifyInstance_addNotes {i : InstanceKey} {f : Instance → Instance}
    (hf : ∀ inst text, f { inst with notes := inst.notes ++ text } =
      { f inst with notes := (f inst).notes ++ text }) :
    (s.addNotes a).modifyInstance i f = (s.modifyInstance i f).addNotes a := by
  have harray : (s.addNotes a).instances.modify i.index f =
      ((s.modifyInstance i f).addNotes a).instances := by
    refine Array.ext_getElem? fun j => ?_
    simp only [addNotes, modifyInstance, Array.getElem?_modify, Array.getElem?_mapIdx]
    by_cases h : i.index = j
    · simp only [if_pos h]
      cases s.instances[j]? with
      | none => rfl
      | some inst => exact congrArg some (hf inst _)
    · simp only [if_neg h]
  exact congrArg (fun instances => { s with instances }) harray

@[simp] theorem setGroup_addNotes (n : Node) (g : Option GroupKey) :
    (s.addNotes a).setGroup n g = (s.setGroup n g).addNotes a := by
  cases n with
  | inst i => exact modifyInstance_addNotes a fun _ _ => rfl
  | host h => rfl
  | group k => rfl

@[simp] theorem modifyChildren_addNotes (g : GroupKey) (f : List Node → List Node) :
    (s.addNotes a).modifyChildren g f = (s.modifyChildren g f).addNotes a := rfl

@[simp] theorem modifyResidents_addNotes (h : HostKey) (f : List InstanceKey → List InstanceKey) :
    (s.addNotes a).modifyResidents h f = (s.modifyResidents h f).addNotes a := rfl

@[simp] theorem leaveGroup_addNotes (n : Node) :
    (s.addNotes a).leaveGroup n = (s.leaveGroup n).addNotes a := by
  simp only [leaveGroup, groupOf?_addNotes]
  cases s.groupOf? n with
  | none => rfl
  | some g => simp only [modifyChildren_addNotes, setGroup_addNotes]

theorem placeIn_addNotes (n : Node) (g : GroupKey) :
    (s.addNotes a).placeIn n g = (s.placeIn n g).addNotes a := by
  simp only [placeIn, enterGroup, standIn_addNotes, groupOf?_addNotes, encloses_addNotes,
    leaveGroup_addNotes, modifyChildren_addNotes, setGroup_addNotes]
  split
  · rfl
  split
  · rfl
  · rfl

@[simp] theorem leaveHost_addNotes (i : InstanceKey) :
    (s.addNotes a).leaveHost i = (s.leaveHost i).addNotes a := by
  simp only [leaveHost, hostOf?_addNotes]
  cases s.hostOf? i <;> rfl

@[simp] theorem yieldPlace_addNotes (i : InstanceKey) (h : HostKey) :
    (s.addNotes a).yieldPlace i h = (s.yieldPlace i h).addNotes a := by
  simp only [yieldPlace, groupOf?_addNotes]
  cases s.groupOf? (.inst i) with
  | none => rfl
  | some g =>
    simp only [takePlace, setGroup_addNotes, groupOf?_addNotes, leaveGroup_addNotes,
      modifyChildren_addNotes]
    split
    · rfl
    · rfl

@[simp] theorem enterHost_addNotes (i : InstanceKey) (h : HostKey) :
    (s.addNotes a).enterHost i h = (s.enterHost i h).addNotes a := by
  rw [enterHost, modifyResidents_addNotes, modifyInstance_addNotes a fun _ _ => rfl]
  rfl

theorem placeOn_addNotes (i : InstanceKey) (h : HostKey) :
    (s.addNotes a).placeOn i h = (s.placeOn i h).addNotes a := by
  simp only [placeOn, hostOf?_addNotes, leaveHost_addNotes, yieldPlace_addNotes,
    enterHost_addNotes]
  split
  · rfl
  · rfl

/-- A new link hangs on its chain and on whether its target stands for many. -/
theorem newLink_eq (source target : InstanceKey) (c : Option ChainKey) :
    s.newLink source target c = (s.nextLink,
      { s with
        counter := (s.counter.take "link").2
        links := s.links.push
          { ident := (s.counter.take "link").1, source, target, chain := c.getD s.nextChain,
            multiple := s.isMany target }
        chains := match c with
          | some c => s.chains.modify c.index (· ++ [s.nextLink])
          | none => s.chains.push [s.nextLink] }) := by
  cases c <;> rfl

theorem newLink_addNotes (source target : InstanceKey) (c : Option ChainKey) :
    (s.addNotes a).newLink source target c =
      ((s.newLink source target c).1, (s.newLink source target c).2.addNotes a) := by
  rw [newLink_eq, newLink_eq, isMany_addNotes]
  rfl

theorem modify_addNotes (l : LinkKey) (m : Modifier) :
    (s.addNotes a).modify l m = (s.modify l m).addNotes a := by
  have hlink : (s.addNotes a).link? l = s.link? l := rfl
  simp only [modify, hlink]
  cases s.link? l with
  | none => rfl
  | some link => simp only [touchesMany, isMany_addNotes]; rfl

theorem modifyAll_addNotes (l : LinkKey) : ∀ (ms : List Modifier) {s : Session},
    (s.addNotes a).modifyAll l ms = (s.modifyAll l ms).addNotes a
  | [], _ => rfl
  | m :: ms, s => by
    rw [modifyAll, List.foldl_cons, modify_addNotes]
    exact modifyAll_addNotes l ms

theorem extend_addNotes (l : LinkKey) (next : InstanceKey) : (s.addNotes a).extend l next =
    ((s.extend l next).1, (s.extend l next).2.addNotes a) := by
  have hlink : (s.addNotes a).link? l = s.link? l := rfl
  simp only [extend, hlink]
  cases s.link? l with
  | none => rfl
  | some link => exact newLink_addNotes a _ _ _

/-! ### Labels -/

theorem addNotes_addNotes (b : InstanceKey → String) :
    (s.addNotes a).addNotes b = s.addNotes fun i => a i ++ b i := by
  have harray : ((s.addNotes a).addNotes b).instances =
      (s.addNotes fun i => a i ++ b i).instances := by
    simp only [addNotes, Array.mapIdx_mapIdx, Function.comp_def, String.append_assoc]
  exact congrArg (fun instances => { s with instances }) harray

theorem addNotes_nothing (s : Session) : (s.addNotes fun _ => "") = s := by
  have harray : (s.addNotes fun _ => "").instances = s.instances := by
    refine Array.ext_getElem? fun j => ?_
    simp only [addNotes, Array.getElem?_mapIdx, String.append_empty]
    cases s.instances[j]? <;> rfl
  exact congrArg (fun instances => { s with instances }) harray

theorem annotate_eq (i : InstanceKey) (text : String) :
    s.annotate i text = s.addNotes fun j => if j = i then text else "" := by
  have harray : (s.annotate i text).instances =
      (s.addNotes fun j => if j = i then text else "").instances := by
    refine Array.ext_getElem? fun j => ?_
    simp only [annotate, modifyInstance, addNotes, Array.getElem?_modify, Array.getElem?_mapIdx]
    by_cases h : i.index = j
    · subst h; simp
    · have hne : (⟨j⟩ : InstanceKey) ≠ i := by rintro rfl; exact h rfl
      cases hinst : s.instances[j]? <;> simp [h, hne]
  exact congrArg (fun instances => { s with instances }) harray

theorem applyLabel_eq (l : Label) (s : Session) :
    s.applyLabel l = s.addNotes (repeated l.text l.targets) := by
  obtain ⟨targets, text⟩ := l
  induction targets generalizing s with
  | nil => exact (addNotes_nothing s).symm
  | cons i targets ih =>
    have hrest : applyLabel s ⟨i :: targets, text⟩ =
        (s.annotate i text).applyLabel ⟨targets, text⟩ := rfl
    rw [hrest, ih, annotate_eq, addNotes_addNotes]
    congr 1
    funext j
    by_cases h : j = i
    · subst h
      simp [repeated, List.replicate_succ]
    · simp [repeated, h, Ne.symm h]

/-- Labels add their texts in order, to an instance as often as they list it. -/
theorem applyLabels_eq : ∀ (ls : List Label) (s : Session), s.applyLabels ls =
    s.addNotes fun i => String.join (ls.map fun l => repeated l.text l.targets i)
  | [], s => (addNotes_nothing s).symm
  | l :: ls, s => by
    have hrest : s.applyLabels (l :: ls) = (s.applyLabel l).applyLabels ls := rfl
    rw [hrest, applyLabels_eq ls, applyLabel_eq, addNotes_addNotes]
    simp only [List.map_cons, String.join_cons]

end Session

end Schematic
