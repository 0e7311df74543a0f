import Mathlib.Data.List.ProdSigma
import Schematic.Proofs.Generation.Agreement
import Schematic.Proofs.Generation.Stored

/-! Which variants share a file. The name of a variant is put together with a dash, and dashes may stand
    in the names of systems and processors as well. So two variants can have one name, but only where the
    name of one system goes on, behind a dash, with what the other's processor begins with; and then the
    later one takes the file of the earlier one. All other variants keep theirs. -/

namespace Schematic

/-! ### Names with dashes -/

/-- The other system's name goes on with what the processor here begins with. -/
def Variant.RunsInto (v v' : Variant) : Prop :=
  ∃ m p, v'.system = v.system ++ "-" ++ m ∧ v.processor = some (m ++ "-" ++ p) ∧
    v'.processor = some p

/-- What stands before the dash is the same, or goes on with a dash of its own. -/
theorem dashed_front {s s' p p' : String} {more : List Char} (hs : s'.toList = s.toList ++ more)
    (hp : '-' :: p.toList = more ++ '-' :: p'.toList) :
    s = s' ∧ p = p' ∨ ∃ m, s' = s ++ "-" ++ m ∧ p = m ++ "-" ++ p' := by
  cases more with
  | nil =>
    rw [List.append_nil] at hs
    rw [List.nil_append, List.cons.injEq] at hp
    exact .inl ⟨(String.toList_inj.mp hs).symm, String.toList_inj.mp hp.2⟩
  | cons c m =>
    rw [List.cons_append, List.cons.injEq] at hp
    obtain ⟨rfl, hp⟩ := hp
    refine .inr ⟨String.ofList m, String.toList_inj.mp ?_, String.toList_inj.mp ?_⟩
    · simpa using hs
    · simpa using hp

/-- Texts with a dash are the same in the obvious way only, or where one front goes on with what the
    other's rest begins with. -/
theorem dashed_eq_iff {s s' p p' : String} : s ++ "-" ++ p = s' ++ "-" ++ p' ↔
    s = s' ∧ p = p' ∨ (∃ m, s' = s ++ "-" ++ m ∧ p = m ++ "-" ++ p') ∨
      ∃ m, s = s' ++ "-" ++ m ∧ p' = m ++ "-" ++ p := by
  constructor
  · intro h
    have hchars : s.toList ++ '-' :: p.toList = s'.toList ++ '-' :: p'.toList := by
      simpa using congrArg String.toList h
    rcases List.append_eq_append_iff.mp hchars with ⟨more, hs, hp⟩ | ⟨more, hs, hp⟩
    · exact (dashed_front hs hp).imp_right .inl
    · exact (dashed_front hs hp).imp (fun h => ⟨h.1.symm, h.2.symm⟩) .inr
  · rintro (⟨rfl, rfl⟩ | ⟨m, rfl, rfl⟩ | ⟨m, rfl, rfl⟩)
    · rfl
    · simp only [String.append_assoc]
    · simp only [String.append_assoc]

theorem Variant.runsInto_iff {v v' : Variant} {p p' : String} (hv : v.processor = some p)
    (hv' : v'.processor = some p') : v.RunsInto v' ↔
      ∃ m, v'.system = v.system ++ "-" ++ m ∧ p = m ++ "-" ++ p' := by
  rw [RunsInto, hv, hv']
  constructor
  · rintro ⟨m, q, hs, hp, hq⟩
    cases hq
    exact ⟨m, hs, Option.some.inj hp⟩
  · rintro ⟨m, hs, rfl⟩
    exact ⟨m, p', hs, rfl, rfl⟩

/-- Two variants that both have a processor, or both have none, share their names only in the obvious way
    or where one runs into the other. -/
theorem Variant.name_eq_iff {v v' : Variant} (hkind : v.processor.isSome = v'.processor.isSome) :
    v.name = v'.name ↔ (v.system, v.processor) = (v'.system, v'.processor) ∨
      v.RunsInto v' ∨ v'.RunsInto v := by
  rw [Prod.mk.injEq]
  cases hp : v.processor with
  | none =>
    cases hp' : v'.processor with
    | none => simp [name, RunsInto, hp, hp']
    | some p' => simp [hp, hp'] at hkind
  | some p =>
    cases hp' : v'.processor with
    | none => simp [hp, hp'] at hkind
    | some p' =>
      simp only [name, hp, hp', runsInto_iff hp hp', runsInto_iff hp' hp, dashed_eq_iff,
        Option.some.injEq]

namespace Document

variable {ω κ : Type}

/-! ### The variants of a document -/

/-- All variants, by systems and then by processors. -/
def variants (doc : Document) : List Variant :=
  (variantRows doc.declare doc.effectiveOptions.themeInUse doc.providers doc.views).flatten

/-- The variants that are drawn. -/
def drawn (doc : Document) : List Variant := doc.variants.filter (·.drawn)

/-- A variant is of its own system, under its own processor. -/
theorem variant_labels (doc : Document) (theme : Theme) (singleSystem singleProcessor : Bool)
    (index : Nat) (entry : SystemEntry) (p : Option ProcessorEntry) :
    let v := variant doc.declare theme singleSystem singleProcessor (provider index entry) (pass p)
    (v.system, v.processor) = (entry.name, p.map (·.name)) := by
  simp only [variant, provider, SystemEntry.select_eq, System.relabel]
  cases p <;> rfl

theorem labels_variants (doc : Document) : doc.variants.map (fun v => (v.system, v.processor)) =
    doc.systems.map (·.name) ×ˢ doc.passes.map (Option.map (·.name)) := by
  have hrow : ∀ (singleSystem singleProcessor : Bool) (x : SystemEntry × Nat),
      ((doc.passes.map pass).map (variant doc.declare doc.effectiveOptions.themeInUse singleSystem
        singleProcessor (provider x.2 x.1))).map (fun v => (v.system, v.processor)) =
      (doc.passes.map (Option.map (·.name))).map (Prod.mk x.1.name) := by
    intro singleSystem singleProcessor x
    rw [List.map_map, List.map_map, List.map_map]
    exact List.map_congr_left fun p _ => variant_labels doc _ _ _ x.2 x.1 p
  have hproduct : ∀ (l : List String) (l' : List (Option String)),
      l ×ˢ l' = l.flatMap fun a => l'.map (Prod.mk a) := fun _ _ => rfl
  have hsystems : doc.systems.map (·.name) = doc.systems.zipIdx.map fun x => x.1.name := by
    conv_lhs => rw [← List.zipIdx_map_fst 0 doc.systems, List.map_map]
    rfl
  have hproviders : doc.providers = doc.systems.zipIdx.map fun x => provider x.2 x.1 :=
    List.mapIdx_eq_zipIdx_map
  rw [variants, variantRows, processorsOrIdentity_views, List.map_flatten, List.map_map]
  generalize decide (doc.providers.length = 1) = singleSystem
  rw [hproviders, List.map_map, hsystems]
  simp only [Function.comp_def, hrow]
  rw [hproduct, List.flatMap_map, ← List.flatMap_def]

/-- With different names for systems and different names for processors, variants can be told apart. -/
theorem nodup_labels {doc : Document} (hsystems : (doc.systems.map (·.name)).Nodup)
    (hprocessors : (doc.processors.map (·.name)).Nodup) :
    (doc.drawn.map fun v => (v.system, v.processor)).Nodup := by
  refine List.Nodup.sublist (List.filter_sublist.map _) ?_
  rw [labels_variants]
  refine hsystems.product ?_
  rw [passes]
  split
  · exact List.nodup_singleton _
  · rw [List.map_map]
    have hsome := List.Nodup.map (fun _ _ => Option.some.inj) hprocessors
    rwa [List.map_map] at hsome

/-- Either all variants have processors or none. -/
theorem isSome_processor {doc : Document} {v : Variant} (hv : v ∈ doc.variants) :
    v.processor.isSome = !doc.processors.isEmpty := by
  have hlabels : (v.system, v.processor) ∈ doc.variants.map fun v => (v.system, v.processor) :=
    List.mem_map_of_mem hv
  rw [labels_variants, List.mem_product] at hlabels
  obtain ⟨p, hp, hname⟩ := List.mem_map.mp hlabels.2
  rw [← hname, Option.isSome_map]
  rw [passes] at hp
  cases hnone : doc.processors.isEmpty with
  | true =>
    rw [if_pos hnone, List.mem_singleton] at hp
    rw [hp]
    rfl
  | false =>
    rw [hnone, if_neg Bool.false_ne_true] at hp
    obtain ⟨p, -, rfl⟩ := List.mem_map.mp hp
    rfl

/-- Two variants that are drawn share their names only where one runs into the other. -/
theorem name_eq_iff {doc : Document}
    (hnodup : (doc.drawn.map fun v => (v.system, v.processor)).Nodup) {v v' : Variant}
    (hv : v ∈ doc.drawn) (hv' : v' ∈ doc.drawn) (hne : v ≠ v') :
    v.name = v'.name ↔ v.RunsInto v' ∨ v'.RunsInto v := by
  have hkind : v.processor.isSome = v'.processor.isSome :=
    (isSome_processor (List.mem_of_mem_filter hv)).trans
      (isSome_processor (List.mem_of_mem_filter hv')).symm
  have hlabels : (v.system, v.processor) ≠ (v'.system, v'.processor) := fun h =>
    hne (List.inj_on_of_nodup_map hnodup hv hv' h)
  rw [Variant.name_eq_iff hkind, or_iff_right hlabels]

/-! ### Files -/

/-- The place of the file of a variant. -/
def filePlace (doc : Document) (extension : String) (home : Location) (v : Variant) : Location :=
  FileTree.place home (outputPath doc.effectiveOptions v.name extension)

/-- Where names are no paths, files share their places only if their variants share their names. -/
theorem filePlace_eq_iff (doc : Document) {extension : String} (home : Location) {v v' : Variant}
    (hv : FileTree.IsName (v.name ++ "." ++ extension))
    (hv' : FileTree.IsName (v'.name ++ "." ++ extension)) :
    doc.filePlace extension home v = doc.filePlace extension home v' ↔ v.name = v'.name := by
  rw [filePlace, filePlace, outputPath, outputPath, FileTree.place_join hv, FileTree.place_join hv',
    List.append_cancel_left_eq, List.singleton_inj, String.append_left_inj, String.append_left_inj]

theorem nodup_filePlaces {doc : Document} {extension : String} (home : Location)
    (hnodup : (doc.drawn.map fun v => (v.system, v.processor)).Nodup)
    (hnames : ∀ v ∈ doc.drawn, FileTree.IsName (v.name ++ "." ++ extension))
    (hapart : ∀ v ∈ doc.drawn, ∀ v' ∈ doc.drawn, ¬ v.RunsInto v') :
    (doc.drawn.map (doc.filePlace extension home)).Nodup := by
  refine List.Nodup.map_on (fun v hv v' hv' hplace => ?_) (List.Nodup.of_map _ hnodup)
  by_contra hne
  have hname := (filePlace_eq_iff doc home (hnames v hv) (hnames v' hv')).mp hplace
  rcases (name_eq_iff hnodup hv hv' hne).mp hname with hruns | hruns
  · exact hapart v hv v' hv' hruns
  · exact hapart v' hv' v hv hruns

/-- Images that are all in places of their own can all be read. -/
theorem read_images {doc : Document} {extension : String} {start : Machine} {report : Report}
    {log : List (Event κ)} {files : FileTree} {images : List (Variant × ByteArray)}
    (h : ImagesStored doc.effectiveOptions extension doc.variants start report log files images)
    (hplaces : (doc.drawn.map (doc.filePlace extension start.home)).Nodup) :
    ∀ i ∈ images, ¬ start.files.HasDevice (doc.filePlace extension start.home i.1) →
      files.read start.home (outputPath doc.effectiveOptions i.1.name extension) = .ok i.2 := by
  rintro ⟨v, image⟩ hi hdevice
  obtain ⟨before, after, rfl⟩ := List.append_of_mem hi
  refine (h.holds rfl (fun i hlater => ?_) hdevice).read
  rw [drawn, ← h.variants, List.map_map, List.map_append, List.map_cons] at hplaces
  obtain ⟨hafter, -⟩ := List.nodup_cons.mp hplaces.of_append_right
  change doc.filePlace extension start.home i.1 ≠ doc.filePlace extension start.home v
  intro hsame
  refine hafter (List.mem_map.mpr ⟨i, hlater, ?_⟩)
  simpa only [Function.comp_apply] using hsame

/-- What becomes of the files of a document's variants in a generation. -/
structure FilesApart (doc : Document) (extension : String) (start : Machine) (report : Report)
    (log : List (Event κ)) (files : FileTree) : Prop where
  /-- No two variants that are drawn are of the same system under the same processor. -/
  distinct : (doc.drawn.map fun v => (v.system, v.processor)).Nodup
  /-- They share their names only where one runs into the other. -/
  names : ∀ v ∈ doc.drawn, ∀ v' ∈ doc.drawn, v ≠ v' →
    (v.name = v'.name ↔ v.RunsInto v' ∨ v'.RunsInto v)
  /-- They share their paths, and the places of these, only where they share their names, unless the
  names are paths themselves. -/
  places : ∀ v ∈ doc.drawn, ∀ v' ∈ doc.drawn, FileTree.IsName (v.name ++ "." ++ extension) →
    FileTree.IsName (v'.name ++ "." ++ extension) →
    (outputPath doc.effectiveOptions v.name extension =
      outputPath doc.effectiveOptions v'.name extension ↔ v.name = v'.name) ∧
    (doc.filePlace extension start.home v = doc.filePlace extension start.home v' ↔
      v.name = v'.name)
  apart : (∀ v ∈ doc.drawn, FileTree.IsName (v.name ++ "." ++ extension)) →
    (∀ v ∈ doc.drawn, ∀ v' ∈ doc.drawn, ¬ v.RunsInto v') →
    (doc.drawn.map (doc.filePlace extension start.home)).Nodup
  /-- After a success every file holds the image of the last variant that has it. -/
  stored : report.success → ∃ images,
    ImagesStored doc.effectiveOptions extension doc.variants start report log files images ∧
    ((doc.drawn.map (doc.filePlace extension start.home)).Nodup →
      (report.outputs.map (FileTree.place start.home)).Nodup ∧
      report.outputs.length = doc.drawn.length ∧
      ∀ i ∈ images, ¬ start.files.HasDevice (doc.filePlace extension start.home i.1) →
        files.read start.home (outputPath doc.effectiveOptions i.1.name extension) = .ok i.2)

/-- A generation into files keeps variants apart whose names are apart. Systems have different names
    here, and so have processors. -/
theorem generate_filesApart (doc : Document) (hsystems : (doc.systems.map (·.name)).Nodup)
    (hprocessors : (doc.processors.map (·.name)).Nodup)
    (hgrid : doc.effectiveOptions.grid = false) (hnative : doc.effectiveOptions.native = false)
    {machine : ω → Machine} {workshop : Workshop ω κ} (hw : workshop.WritesOn machine) (w : ω) :
    ∃ report w' log,
      doc.generate workshop w = (report, w') ∧
      doc.generate workshop.traced (w, []) = (report, w', log) ∧
      FilesApart doc workshop.extension (machine w) report log (machine w').files := by
  have hsame := generate_follows doc.effectiveOptions workshop.traced_follows doc.declare
    doc.providers doc.views (w, [])
  have hrun : doc.generate workshop.traced (w, []) =
      makeFiles workshop.traced doc.effectiveOptions doc.variants (w, []) := by
    simp only [Document.generate, Schematic.generate, hgrid, hnative, Bool.false_eq_true, if_false]
    rfl
  have hstores := makeFiles_stores hw doc.effectiveOptions doc.variants w
  have hlabels := nodup_labels hsystems hprocessors
  rw [← hrun] at hstores
  rcases hmade : doc.generate workshop.traced (w, []) with ⟨report, w', log⟩
  rw [Document.generate] at hmade
  rw [hmade] at hsame
  rw [Document.generate, hmade] at hstores
  refine ⟨report, w', log, hsame.symm, rfl, hlabels, fun v hv v' hv' => name_eq_iff hlabels hv hv',
    fun v _ v' _ hv hv' => ?_, nodup_filePlaces _ hlabels, fun hsuccess => ?_⟩
  · have hplaces := filePlace_eq_iff doc (machine w).home hv hv'
    refine ⟨⟨fun hpath => hplaces.mp ?_, fun hname => by rw [hname]⟩, hplaces⟩
    rw [filePlace, hpath, filePlace]
  obtain ⟨images, h⟩ := hstores hsuccess
  refine ⟨images, h, fun hplaces => ⟨?_, ?_, read_images h hplaces⟩⟩
  · rw [drawn, ← h.variants, List.map_map] at hplaces
    rw [h.outputs, List.map_map]
    exact hplaces
  · rw [h.outputs, drawn, ← h.variants, List.length_map, List.length_map]

/-- A workshop whose images are numbers, in the order in which they are asked for. -/
def numbering : Workshop (Nat × Machine) Unit where
  extension := "svg"
  render _ w := (.ok (toString (w.1 + 1)).toUTF8, w.1 + 1, w.2)
  write path bytes w := ((w.2.save path bytes).1, w.1, (w.2.save path bytes).2)
  start _ _ _ w := (.error .unsupported, w)
  finish _ w := (.error .unsupported, w)

theorem numbering_writesOn : numbering.WritesOn Prod.snd where
  render_home _ _ := rfl
  render_files _ _ := .refl _
  write _ _ _ := rfl

/-- A machine without any files. -/
def bare : Machine where
  files := {}
  home := []
  search := []

/-- The three variants that are drawn of two systems under two processors have three files. -/
theorem pair_filesApart : (pair.systems.map (·.name)).Nodup ∧ (pair.processors.map (·.name)).Nodup ∧
    pair.effectiveOptions.grid = false ∧ pair.effectiveOptions.native = false ∧
    ((pair.generate numbering (0, bare)).1.outputs.map (FileTree.place [])).Nodup ∧
    (pair.generate numbering (0, bare)).1.outputs.length = 3 := by
  have hsystems : (pair.systems.map (·.name)).Nodup := by decide
  have hprocessors : (pair.processors.map (·.name)).Nodup := by decide
  refine ⟨hsystems, hprocessors, rfl, rfl, ?_⟩
  obtain ⟨report, w', log, hrun, -, h⟩ := generate_filesApart pair hsystems hprocessors rfl rfl
    numbering_writesOn (0, bare)
  have hsuccess : (pair.generate numbering (0, bare)).1.success := by decide +kernel
  have hplaces : (pair.drawn.map (pair.filePlace numbering.extension [])).Nodup := by decide +kernel
  rw [hrun] at hsuccess ⊢
  obtain ⟨images, -, hown⟩ := h.stored hsuccess
  obtain ⟨houtputs, hlength, -⟩ := hown hplaces
  exact ⟨houtputs, hlength.trans (by decide +kernel)⟩

/-- A generation into files succeeds with two variants, but they have one path, and what is there in the
    end is the second image. -/
structure LosesImage (doc : Document) (path : String) : Prop where
  valid : doc.validate = .ok ()
  systems : (doc.systems.map (·.name)).Nodup
  processors : (doc.processors.map (·.name)).Nodup
  files : doc.effectiveOptions.grid = false ∧ doc.effectiveOptions.native = false
  drawn : doc.drawn.length = 2 ∧ (doc.drawn.map fun v => (v.system, v.processor)).Nodup
  success : (doc.generate numbering (0, bare)).1.success
  outputs : (doc.generate numbering (0, bare)).1.outputs = [path, path]
  last : (doc.generate numbering (0, bare)).2.2.files.read [] path = .ok "2".toUTF8

/-- A system that runs into another one. -/
def overlapping : Document where
  instances := [{ id := "x" }, { id := "y" }]
  processors := [{ name := "b-c" }, { name := "c" }]
  systems := [{ name := "a", contains := ["x"], only := some ["b-c"] },
    { name := "a-b", contains := ["y"], only := some ["c"] }]

/-- A system whose name is the path of another one's file. -/
def rooted : Document where
  options := { outDir := "/x" }
  instances := [{ id := "x" }, { id := "y" }]
  systems := [{ name := "y", contains := ["x"] }, { name := "/x/y", contains := ["y"] }]

/-- Different names alone do not keep files apart: they may overlap, and they may be paths. -/
theorem images_lost : LosesImage overlapping "target/a-b-c.svg" ∧ LosesImage rooted "/x/y.svg" where
  left :=
    { valid := by decide +kernel
      systems := by decide
      processors := by decide
      files := ⟨rfl, rfl⟩
      drawn := by decide +kernel
      success := by decide +kernel
      outputs := by decide +kernel
      last := by rfl }
  right :=
    { valid := by decide +kernel
      systems := by decide
      processors := by decide
      files := ⟨rfl, rfl⟩
      drawn := by decide +kernel
      success := by decide +kernel
      outputs := by decide +kernel
      last := by rfl }

end Document

end Schematic
