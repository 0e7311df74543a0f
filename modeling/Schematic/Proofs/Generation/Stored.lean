import Schematic.Proofs.Files.Tree
import Schematic.Proofs.Generation.Accounts

/-! What is in the files after a generation. A workshop that writes on a machine leaves there, at the
    place of each path, what it wrote last in that place: the files that it writes before and after are
    elsewhere, and its images are made without touching any. -/

namespace Schematic

variable {ω κ : Type}

/-- The workshop writes its files on a machine. To make an image it may put new files there, but it
    leaves alone those that there are. -/
structure Workshop.WritesOn (machine : ω → Machine) (workshop : Workshop ω κ) : Prop where
  render_home : ∀ dot w, (machine (workshop.render dot w).2).home = (machine w).home
  render_files : ∀ dot w,
    FileTree.Saves (fun _ => False) (machine w).files (machine (workshop.render dot w).2).files
  write : ∀ path bytes w, (workshop.write path bytes w).map id machine = (machine w).save path bytes

/-- The request may change a file in this place. -/
def Event.Touches (home l : Location) : Event κ → Prop
  | .wrote path _ _ => FileTree.place home path = l
  | _ => False

/-- What requests have made of the files of a machine: the last one that was written in a place is
    there, unless a device was there from the start. -/
structure Stored (start : Machine) (log : List (Event κ)) (m : Machine) : Prop where
  home : m.home = start.home
  devices : ∀ {l}, m.files.HasDevice l → start.files.HasDevice l
  holds : ∀ {before path image after}, log = before ++ .wrote path image (.ok ()) :: after →
    (∀ e ∈ after, ¬ e.Touches start.home (FileTree.place start.home path)) →
    ¬ start.files.HasDevice (FileTree.place start.home path) →
    m.files.Holds start.home path image

namespace Stored

variable {start m m' : Machine} {log : List (Event κ)}

theorem nothing (start : Machine) : Stored start ([] : List (Event κ)) start :=
  ⟨rfl, id, fun h => by simp at h⟩

/-- One more request. -/
theorem concat (h : Stored start log m) (e : Event κ) (hhome : m'.home = m.home)
    (hsaves : FileTree.Saves (e.Touches start.home ·) m.files m'.files)
    (hwritten : ∀ path image, e = .wrote path image (.ok ()) →
      m.files.HasDevice (FileTree.place start.home path) ∨ m'.files.Holds start.home path image) :
    Stored start (log ++ [e]) m' := by
  refine ⟨hhome.trans h.home, fun hl => h.devices (hsaves.hasDevice hl), ?_⟩
  intro before path image after hlog hafter hdevice
  -- The request looked for is the new one, or it is an old one and the new one is elsewhere.
  cases after using List.reverseRecOn with
  | nil =>
    obtain ⟨-, he⟩ := List.append_inj' hlog rfl
    rcases hwritten path image (List.singleton_inj.mp he) with hold | hnew
    · exact (hdevice (h.devices hold)).elim
    · exact hnew
  | append_singleton after last =>
    rw [← List.cons_append, ← List.append_assoc] at hlog
    obtain ⟨hold, he⟩ := List.append_inj' hlog rfl
    obtain rfl := List.singleton_inj.mp he
    have hheld := h.holds hold (fun e he => hafter e (List.mem_append_left _ he)) hdevice
    exact hsaves.holds hheld (hafter e (by simp))

theorem rendered {machine : ω → Machine} {workshop : Workshop ω κ} (hw : workshop.WritesOn machine)
    {w : ω} (h : Stored start log (machine w)) (dot : String) :
    Stored start (log ++ [.rendered dot (workshop.render dot w).1])
      (machine (workshop.render dot w).2) :=
  h.concat _ (hw.render_home dot w) (hw.render_files dot w) fun _ _ he => by cases he

theorem wrote {machine : ω → Machine} {workshop : Workshop ω κ} (hw : workshop.WritesOn machine)
    {w : ω} (h : Stored start log (machine w)) (path : String) (bytes : ByteArray) :
    Stored start (log ++ [.wrote path bytes (workshop.write path bytes w).1])
      (machine (workshop.write path bytes w).2) := by
  obtain ⟨hhome, hsaves, hholds⟩ := (machine w).save_saves path bytes
  rw [← hw.write, h.home] at hhome hsaves hholds
  refine h.concat _ (hhome.trans h.home.symm) (hsaves.mono fun _ => Eq.symm) ?_
  rintro p image he
  simp only [Event.wrote.injEq] at he
  obtain ⟨rfl, rfl, hok⟩ := he
  exact hholds hok

end Stored

section Files

variable {machine : ω → Machine} {workshop : Workshop ω κ} (hw : workshop.WritesOn machine)
  (options : Options)
include hw

theorem stored_makeFile {start : Machine} {log : List (Event κ)} {w : ω}
    (h : Stored start log (machine w)) (v : Variant) (r : Report) :
    Stored start (makeFile workshop.traced options v r (w, log)).2.2
      (machine (makeFile workshop.traced options v r (w, log)).2.1) := by
  by_cases hdrawn : v.drawn
  · have hrendered := h.rendered hw v.dot
    rw [makeFile, if_pos hdrawn]
    simp only [Workshop.traced]
    rcases hrender : workshop.render v.dot w with ⟨e | image, w'⟩
    · rwa [hrender] at hrendered
    · rw [hrender] at hrendered
      have hwrote := hrendered.wrote hw (outputPath options v.name workshop.extension) image
      simp only
      rcases hwrite : workshop.write (outputPath options v.name workshop.extension) image w' with
        ⟨e | _, w''⟩
      · rwa [hwrite] at hwrote
      · rwa [hwrite] at hwrote
  · rw [makeFile, if_neg hdrawn]
    exact h

theorem stored_makeFiles (vs : List Variant) (w : ω) :
    Stored (machine w) (makeFiles workshop.traced options vs (w, [])).2.2
      (machine (makeFiles workshop.traced options vs (w, [])).2.1) := by
  induction vs using List.reverseRecOn with
  | nil => exact .nothing _
  | append_singleton vs v ih =>
    rw [makeFiles, List.foldl_append]
    exact stored_makeFile hw options ih v _

omit hw in
/-- Where no variant left an error behind, each has its image. -/
theorem written_of_errors (extension : String) : ∀ {fates : List (Variant × FileFate)},
    (gather (FileFate.leaves options extension : _ → _ → Trace κ) fates).errors = [] →
    ∃ images : List (Variant × ByteArray), fates = images.map fun i => (i.1, .written i.2)
  | [], _ => ⟨[], rfl⟩
  | (v, fate) :: fates, h => by
    simp only [gather, List.flatMap_cons, List.append_eq_nil_iff] at h
    obtain ⟨images, rfl⟩ := written_of_errors extension h.2
    cases fate with
    | unrendered e => cases h.1
    | unwritten image e => cases h.1
    | written image => exact ⟨(v, image) :: images, rfl⟩

/-- Images that were all made and written, in order. -/
structure ImagesStored (extension : String) (vs : List Variant) (start : Machine) (report : Report)
    (log : List (Event κ)) (files : FileTree) (images : List (Variant × ByteArray)) : Prop where
  variants : images.map (·.1) = vs.filter (·.drawn)
  outputs : report.outputs = images.map fun i => outputPath options i.1.name extension
  /-- Every image was made of the text of its own variant. -/
  events : log = images.flatMap fun i => [.rendered i.1.dot (.ok i.2),
    .wrote (outputPath options i.1.name extension) i.2 (.ok ())]
  /-- The file of a variant holds its image, where no later one is put into the same place. -/
  holds : ∀ {before v image after}, images = before ++ (v, image) :: after →
    (∀ i ∈ after, FileTree.place start.home (outputPath options i.1.name extension) ≠
      FileTree.place start.home (outputPath options v.name extension)) →
    ¬ start.files.HasDevice (FileTree.place start.home (outputPath options v.name extension)) →
    files.Holds start.home (outputPath options v.name extension) image

/-- After a success all images are in their files. -/
theorem makeFiles_stores (vs : List Variant) (w : ω)
    (hsuccess : (makeFiles workshop.traced options vs (w, [])).1.success) :
    ∃ images, ImagesStored options workshop.extension vs (machine w)
      (makeFiles workshop.traced options vs (w, [])).1
      (makeFiles workshop.traced options vs (w, [])).2.2
      (machine (makeFiles workshop.traced options vs (w, [])).2.1).files images := by
  obtain ⟨fates, h⟩ := makeFiles_accounts workshop options vs w
  have hstored := stored_makeFiles hw options vs w
  rw [Report.success, List.isEmpty_iff, h.errors] at hsuccess
  obtain ⟨images, rfl⟩ := written_of_errors options workshop.extension hsuccess
  have hevents := h.events
  simp only [gather, List.flatMap_map, FileFate.leaves] at hevents
  refine ⟨images, ?_, ?_, hevents, ?_⟩
  · rw [← h.variants, List.map_map]
    rfl
  · rw [h.outputs]
    simp only [gather, List.flatMap_map, FileFate.leaves]
    exact List.map_eq_flatMap.symm
  · rintro before v image after rfl hafter hdevice
    rw [hevents, List.flatMap_append, List.flatMap_cons, List.cons_append, List.singleton_append,
      List.append_cons] at hstored
    refine hstored.holds rfl ?_ hdevice
    intro e he
    obtain ⟨i, hi, he⟩ := List.mem_flatMap.mp he
    simp only [List.mem_cons, List.not_mem_nil, or_false] at he
    rcases he with rfl | rfl
    · exact id
    · exact hafter i hi

end Files

end Schematic
