import Schematic.Proofs.Document.Names
import Schematic.Proofs.Session.Notes

/-! Labels can be written into the document. Saying more about instances in their entries and then
    declaring the document comes to the same as declaring it and adding the notes afterwards, since
    nothing that is declared in between looks at notes. The names of systems do not matter either. -/

namespace Schematic

/-! ### Links of a document -/

namespace Session

variable (a : InstanceKey → String)

theorem extendAll_addNotes (ms : List Modifier) : ∀ (rest : List InstanceKey) (l : LinkKey)
    (s : Session), (s.addNotes a).extendAll ms l rest =
      ((s.extendAll ms l rest).1, (s.extendAll ms l rest).2.addNotes a)
  | [], _, _ => rfl
  | next :: rest, l, s => by
    simp only [extendAll, extend_addNotes, modifyAll_addNotes]
    exact extendAll_addNotes ms rest _ _

theorem connectPath_addNotes (entry : LinkEntry) (s : Session) : ∀ path : List InstanceKey,
    (s.addNotes a).connectPath entry path =
      ((s.connectPath entry path).1, (s.connectPath entry path).2.addNotes a)
  | [] => rfl
  | [_] => rfl
  | first :: second :: rest => by
    simp only [connectPath, newLink_addNotes, modifyAll_addNotes, extendAll_addNotes]
    cases entry.label with
    | none => rfl
    | some text => simp only [modify_addNotes]

theorem connectPaths_addNotes (d : Declared) : ∀ (entries : List LinkEntry) (s : Session),
    (s.addNotes a).connectPaths d entries =
      ((s.connectPaths d entries).1, (s.connectPaths d entries).2.addNotes a)
  | [], _ => rfl
  | entry :: rest, s => by
    simp only [connectPaths]
    cases d.path? entry.path with
    | none => exact connectPaths_addNotes d rest s
    | some path => simp only [connectPath_addNotes, connectPaths_addNotes d rest]

theorem addNotes_of_empty {s : Session} (hs : s.instances = #[]) : s.addNotes a = s := by
  have harray : (s.addNotes a).instances = s.instances := by rw [addNotes, hs]; rfl
  exact congrArg (fun instances => { s with instances }) harray

end Session

/-! ### Entries of a document -/

/-- The entry, with more said about the instance. -/
def InstanceEntry.noting (i : InstanceEntry) (text : String) : InstanceEntry :=
  { i with details := if text = "" then i.details else some (i.details.getD "" ++ text) }

theorem InstanceEntry.details_noting (i : InstanceEntry) (text : String) :
    (i.noting text).details.getD "" = i.details.getD "" ++ text := by
  rw [noting]
  by_cases h : text = ""
  · simp [h]
  · simp [h]

namespace Draft

/-- Adds to the notes of every instance. -/
def addNotes (a : InstanceKey → String) (d : Draft) : Draft :=
  { d with session := d.session.addNotes a }

variable (a : InstanceKey → String) (d : Draft)

theorem addInstance_noting {i : InstanceEntry} {text : String}
    (h : text = a ⟨d.session.instances.size⟩) :
    (d.addNotes a).addInstance (i.noting text) = (d.addInstance i).addNotes a := by
  rw [addInstance_eq, addInstance_eq, InstanceEntry.details_noting, h]
  simp [addNotes, Session.addNotes, InstanceEntry.noting, Array.mapIdx_push]

theorem addInstances_noting {text : String → String} : ∀ (is : List InstanceEntry) (d : Draft),
    (∀ j i, is[j]? = some i → text i.id = a ⟨d.session.instances.size + j⟩) →
    (is.map fun i => i.noting (text i.id)).foldl addInstance (d.addNotes a) =
      (is.foldl addInstance d).addNotes a
  | [], _, _ => rfl
  | i :: is, d, h => by
    rw [List.map_cons, List.foldl_cons, addInstance_noting a d (h 0 i rfl), List.foldl_cons]
    refine addInstances_noting is _ fun j k hk => ?_
    rw [size_addInstance, Nat.add_assoc, Nat.add_comm 1 j]
    exact h (j + 1) k (by simpa using hk)

theorem settle_addNotes (node : Option Node) (within : Option String) :
    (d.addNotes a).settle node within = (d.settle node within).addNotes a := by
  have hdeclared : (d.addNotes a).declared = d.declared := rfl
  unfold settle
  rw [hdeclared]
  split
  · exact congrArg (fun session => { d with session }) (Session.placeIn_addNotes a _ _)
  · rfl

theorem lodge_noting (i : InstanceEntry) (text : String) :
    (d.addNotes a).lodge (i.noting text) = (d.lodge i).addNotes a := by
  have hdeclared : (d.addNotes a).declared = d.declared := rfl
  have hid : (i.noting text).id = i.id := rfl
  have hon : (i.noting text).on = i.on := rfl
  unfold lodge
  rw [hdeclared, hid, hon]
  split
  · exact congrArg (fun session => { d with session }) (Session.placeOn_addNotes a _ _)
  · rfl

theorem addSystem_addNotes (entry : SystemEntry) :
    (d.addNotes a).addSystem entry = (d.addSystem entry).addNotes a := by
  have hdeclared : (d.addNotes a).declared = d.declared := rfl
  simp only [addSystem, hdeclared]
  rw [addNotes, Session.connectPaths_addNotes]
  rfl

end Draft

/-! ### The document -/

namespace Document

/-- The document, with more said about its instances. -/
def noted (doc : Document) (text : String → String) : Document :=
  { doc with instances := doc.instances.map fun i => i.noting (text i.id) }

/-- The document, with another name for the system at `index`. -/
def retitled (doc : Document) (index : Nat) (name : String) : Document :=
  { doc with systems := doc.systems.modify index fun entry => { entry with name } }

theorem elements_noted (doc : Document) (theme : Theme) {text : String → String}
    {a : InstanceKey → String} (h : ∀ j i, doc.instances[j]? = some i → text i.id = a ⟨j⟩) :
    (doc.noted text).elements (.fresh theme) = (doc.elements (.fresh theme)).addNotes a := by
  have hnone : (doc.containers (.fresh theme)).session.instances = #[] := by
    rw [instances_containers]; rfl
  have hsame : doc.containers (.fresh theme) = (doc.containers (.fresh theme)).addNotes a :=
    congrArg (fun session => { doc.containers (.fresh theme) with session })
      (Session.addNotes_of_empty a hnone).symm
  have hcontainers : (doc.noted text).containers (.fresh theme) =
      (doc.containers (.fresh theme)).addNotes a := hsame
  rw [elements, hcontainers]
  refine Draft.addInstances_noting a doc.instances _ fun j i hj => ?_
  rw [hnone, h j i hj]
  simp

theorem nest_noted (doc : Document) (text : String → String) (a : InstanceKey → String) (d : Draft) :
    (doc.noted text).nest (d.addNotes a) = (doc.nest d).addNotes a := by
  have hgroups : ∀ d, doc.groups.foldl Draft.settleGroup (Draft.addNotes a d) =
      (doc.groups.foldl Draft.settleGroup d).addNotes a := fun d =>
    List.foldl_hom (Draft.addNotes a) fun d g => Draft.settle_addNotes a d _ g.within
  have hhosts : ∀ d, doc.hosts.foldl Draft.settleHost (Draft.addNotes a d) =
      (doc.hosts.foldl Draft.settleHost d).addNotes a := fun d =>
    List.foldl_hom (Draft.addNotes a) fun d h => Draft.settle_addNotes a d _ h.within
  have hinstances : ∀ d, (doc.noted text).instances.foldl Draft.settleInstance (Draft.addNotes a d) =
      (doc.instances.foldl Draft.settleInstance d).addNotes a := fun d => by
    rw [noted, List.foldl_map]
    exact List.foldl_hom (Draft.addNotes a) fun d i => Draft.settle_addNotes a d _ i.within
  have hlodgers : ∀ d, (doc.noted text).instances.foldl Draft.lodge (Draft.addNotes a d) =
      (doc.instances.foldl Draft.lodge d).addNotes a := fun d => by
    rw [noted, List.foldl_map]
    exact List.foldl_hom (Draft.addNotes a) fun d i => Draft.lodge_noting a d i (text i.id)
  rw [nest, nest, ← hlodgers, ← hinstances, ← hhosts, ← hgroups]
  rfl

/-- Saying more in the entries comes to the same as adding notes to the instances made of them. -/
theorem declare_noted (doc : Document) (theme : Theme) {text : String → String}
    {a : InstanceKey → String} (h : ∀ j i, doc.instances[j]? = some i → text i.id = a ⟨j⟩) :
    (doc.noted text).declare (.fresh theme) =
      ((doc.declare (.fresh theme)).1, (doc.declare (.fresh theme)).2.addNotes a) := by
  have hsystems : (doc.noted text).systems = doc.systems := rfl
  rw [declare_eq, declare_eq, elements_noted doc theme h, nest_noted, hsystems,
    List.foldl_hom (Draft.addNotes a) fun d e => Draft.addSystem_addNotes a d e]
  rfl

/-- A fold that gives the same for a changed entry gives the same for the changed list. -/
theorem foldl_modify {α β : Type} {f : β → α → β} {g : α → α} (h : ∀ b x, f b (g x) = f b x) :
    ∀ (xs : List α) (k : Nat) (b : β), (xs.modify k g).foldl f b = xs.foldl f b
  | [], k, b => by simp
  | x :: xs, 0, b => by simp [h]
  | x :: xs, k + 1, b => by
    rw [List.modify_succ_cons, List.foldl_cons, List.foldl_cons, foldl_modify h xs k]

theorem declare_retitled (doc : Document) (index : Nat) (name : String) (s : Session) :
    (doc.retitled index name).declare s = doc.declare s := by
  have hsystems : ∀ d, (doc.retitled index name).systems.foldl Draft.addSystem d =
      doc.systems.foldl Draft.addSystem d := fun d => foldl_modify (by intro _ _; rfl) _ _ d
  rw [declare_eq, hsystems]
  rfl

end Document

end Schematic
