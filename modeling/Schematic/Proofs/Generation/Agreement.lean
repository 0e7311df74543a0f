import Schematic.Proofs.Document.Noted
import Schematic.Proofs.Document.Selection
import Schematic.Proofs.Generation.Recorded

/-! The two ways to draw a document agree. A generation declares the document anew for every variant,
    labels the instances and then gives the system its title. A document in which the labels and the
    title are written already, drawn in one session with all its systems, has the same text for that
    system. -/

namespace Schematic

/-! ### The document of a variant -/

/-- The text that a processor adds to the labels of the instance with an id. -/
def addedText (p : Option ProcessorEntry) (id : String) : String :=
  String.join ((p.toList.flatMap (·.details)).map fun l => repeated l.text l.targets id)

/-- The system is drawn under the processor, where none is the one that changes nothing. -/
def SystemEntry.admits (entry : SystemEntry) (p : Option ProcessorEntry) : Bool :=
  match entry.only with
  | none => true
  | some names => p.any fun p => names.contains p.name

namespace Document

/-- The processors to use: that which changes nothing, where there are no others. -/
def passes (doc : Document) : List (Option ProcessorEntry) :=
  if doc.processors.isEmpty then [none] else doc.processors.map some

/-- The title of the drawing of a system under a processor. -/
def displayedTitle (doc : Document) (system : String) (p : Option ProcessorEntry) : String :=
  if doc.systems.length = 1 then
    if doc.processors.length ≤ 1 then " " else (p.map (·.name)).getD ""
  else
    match p with
    | some p => system ++ "-" ++ p.name
    | none => system

/-- The document with the labels of a processor and the title of one system written into it. -/
def written (doc : Document) (index : Nat) (entry : SystemEntry) (p : Option ProcessorEntry) :
    Document :=
  (doc.noted (addedText p)).retitled index (doc.displayedTitle entry.name p)

/-- What the processor of an entry does. -/
def pass (p : Option ProcessorEntry) : Processor Declared := (p.map processor).getD .identity

theorem processorsOrIdentity_views (doc : Document) :
    processorsOrIdentity doc.views = doc.passes.map pass := by
  rw [processorsOrIdentity, passes, views]
  cases doc.processors with
  | nil => rfl
  | cons p ps => simp [pass, Function.comp_def]

theorem length_passes (doc : Document) : doc.passes.length = 1 ↔ doc.processors.length ≤ 1 := by
  rw [passes]
  cases doc.processors with
  | nil => simp
  | cons p ps => simp

theorem title_eq (doc : Document) (system : String) (p : Option ProcessorEntry) :
    title (doc.systems.length = 1) (doc.passes.length = 1) system (pass p).name =
      doc.displayedTitle system p := by
  cases p with
  | none => simp only [title, displayedTitle, decide_eq_true_eq, length_passes]; rfl
  | some p => simp only [title, displayedTitle, decide_eq_true_eq, length_passes]; rfl

/-! ### One variant -/

/-- The labels of a processor, on the instances that were declared, add what is said to be added. -/
theorem pass_apply {doc : Document} (hnodup : (doc.instances.map (·.id)).Nodup) (theme : Theme)
    (p : Option ProcessorEntry) :
    (doc.noted (addedText p)).declare (.fresh theme) = ((doc.declare (.fresh theme)).1,
      (pass p).apply (doc.declare (.fresh theme)).2 (doc.declare (.fresh theme)).1) := by
  cases p with
  | none =>
    rw [declare_noted doc theme (a := fun _ => "") fun _ _ _ => rfl, Session.addNotes_nothing]
    rfl
  | some p =>
    have happly : (pass (some p)).apply (doc.declare (.fresh theme)).2 (doc.declare (.fresh theme)).1 =
        (doc.declare (.fresh theme)).2.applyLabels (p.labels (doc.declare (.fresh theme)).1) := rfl
    rw [happly, Session.applyLabels_eq]
    refine declare_noted doc theme fun j i hj => ?_
    simp only [addedText, Option.toList_some, List.flatMap_singleton, ProcessorEntry.labels,
      List.map_map, Function.comp_def, repeated, count_instances hnodup theme hj]

/-- The drawing of a variant is that of its system in the document where all is written. -/
theorem variant_dot {doc : Document} (hnodup : (doc.instances.map (·.id)).Nodup) {index : Nat}
    {entry : SystemEntry} (hentry : doc.systems[index]? = some entry) (p : Option ProcessorEntry) :
    some (variant doc.declare doc.effectiveOptions.themeInUse (doc.systems.length = 1)
        (doc.passes.length = 1) (provider index entry) (pass p)).dot =
      ((doc.written index entry p).renderDot[index]?).map (·.2) := by
  have hdeclare := pass_apply hnodup doc.effectiveOptions.themeInUse p
  have htheme : (doc.written index entry p).effectiveOptions = doc.effectiveOptions := rfl
  have hsystem : (doc.written index entry p).systems[index]? =
      some { entry with name := doc.displayedTitle entry.name p } := by
    have hmodify : (doc.written index entry p).systems = doc.systems.modify index fun e =>
        { e with name := doc.displayedTitle entry.name p } := rfl
    rw [hmodify, List.getElem?_modify_eq, hentry]
    rfl
  have hwritten : ∀ s, (doc.written index entry p).declare s = (doc.noted (addedText p)).declare s :=
    declare_retitled _ index _
  simp only [renderDot, htheme, hwritten, hdeclare, renderFrom_getElem?, hsystem, Nat.zero_add,
    Option.map_some, SystemEntry.drawing_eq, variant, provider, SystemEntry.select_eq]
  rw [Dot.render_withCounter]
  rw [← title_eq]
  rfl

theorem variant_drawn (doc : Document) (theme : Theme) (singleSystem singleProcessor : Bool)
    (index : Nat) (entry : SystemEntry) (p : Option ProcessorEntry) :
    (variant doc.declare theme singleSystem singleProcessor (provider index entry) (pass p)).drawn =
      entry.admits p := by
  simp only [variant, provider, SystemEntry.select_eq, System.rendersUnder, System.relabel,
    SystemEntry.admits]
  cases entry.only <;> cases p <;> rfl

/-- The texts of all variants that are drawn, by systems and then by processors. -/
theorem drawnTexts_rows {doc : Document} (hnodup : (doc.instances.map (·.id)).Nodup) :
    (drawnTexts (variantRows doc.declare doc.effectiveOptions.themeInUse doc.providers
      doc.views).flatten).map some =
    doc.systems.zipIdx.flatMap fun (entry, index) => (doc.passes.filter entry.admits).map fun p =>
      ((doc.written index entry p).renderDot[index]?).map (·.2) := by
  have hproviders : doc.providers.length = doc.systems.length := List.length_mapIdx
  rw [variantRows, processorsOrIdentity_views, hproviders, List.length_map, providers,
    List.mapIdx_eq_zipIdx_map, List.map_map, ← List.flatMap_def, drawnTexts, List.filter_flatMap,
    List.map_flatMap, List.map_flatMap]
  refine List.flatMap_congr fun x hx => ?_
  obtain ⟨entry, index⟩ := x
  have hentry : doc.systems[index]? = some entry := List.mem_zipIdx_iff_getElem?.mp hx
  have hdrawn : (fun v : Variant => v.drawn) ∘ variant doc.declare doc.effectiveOptions.themeInUse
      (doc.systems.length = 1) (doc.passes.length = 1) (provider index entry) ∘ pass =
      entry.admits := funext fun p => variant_drawn doc _ _ _ index entry p
  simp only [Function.comp_apply, List.map_map, List.filter_map, hdrawn]
  refine List.map_congr_left fun p _ => ?_
  exact variant_dot hnodup hentry p

/-- The DOT texts that a generation gives to its workshop are, in order, those of the systems of the
    document, each under every processor that it is drawn under: the text of that system in the document
    with the labels of the processor and the displayed title written into it. The workshop is any that
    makes SVG images, and it does what it does without the list. -/
theorem generate_renders_written {ω κ : Type} (doc : Document) (workshop : Workshop ω κ) (w : ω)
    (hvalid : doc.validate = .ok ()) (hnative : doc.options.native = false)
    (hsvg : workshop.extension = "svg") :
    ∃ log : List String,
      doc.generate workshop.recorded (w, []) =
        ((doc.generate workshop w).1, (doc.generate workshop w).2, log) ∧
      log.map some = doc.systems.zipIdx.flatMap fun (entry, index) =>
        (doc.passes.filter entry.admits).map fun p =>
          ((doc.written index entry p).renderDot[index]?).map (·.2) := by
  have hoptions : doc.effectiveOptions.native = false := by
    rw [effectiveOptions]
    cases doc.theme with
    | none => exact hnative
    | some theme => exact hnative
  refine ⟨_, generate_recorded workshop doc.effectiveOptions doc.declare doc.providers doc.views
    hoptions hsvg w [], ?_⟩
  rw [List.nil_append]
  exact drawnTexts_rows (nodup_of_validate hvalid)

/-- Two systems and two processors, one of which lists an instance twice and is the only one that the
    second system is drawn under. -/
def labelled : Document :=
  { instances := [{ id := "api" }, { id := "db", details := some "sql" }]
    processors := [{ name := "team", details := [⟨["db", "api", "db"], "!"⟩] }, { name := "plain" }]
    systems := [{ name := "all", links := [{ path := ["api", "db"] }] },
      { name := "data", contains := ["db"], only := some ["team"] }] }

/-- A workshop that takes the texts themselves for images, and starts no programs. -/
def echo : Workshop Unit Unit where
  extension := "svg"
  render dot _ := (.ok dot.toUTF8, ())
  write _ _ _ := (.ok (), ())
  start _ _ _ _ := (.error .unsupported, ())
  finish _ _ := (.error .unsupported, ())

theorem labelled_renders_written : labelled.validate = .ok () ∧ labelled.options.native = false ∧
    echo.extension = "svg" ∧ (labelled.generate echo.recorded ((), [])).2.2.length = 3 := by
  have hvalid : labelled.validate = .ok () := by decide
  refine ⟨hvalid, rfl, rfl, ?_⟩
  obtain ⟨log, hlog, htexts⟩ := generate_renders_written labelled echo () hvalid rfl rfl
  have hlength := congrArg List.length htexts
  rw [List.length_map] at hlength
  rw [hlog, hlength]
  rfl

end Document

end Schematic
