import Mathlib.Data.List.Basic
import Schematic.Proofs.Generation.Cells
import Schematic.Proofs.Generation.Variants

/-! Nothing is lost in a generation. Every variant that is drawn meets with one fate, and what a fate
    leaves behind in the report, and has asked of the workshop, is written down once for each kind of
    fate; the report and the list of requests are what all fates leave behind, one after the other. -/

namespace Schematic

variable {ω κ φ : Type}

/-! ### What is left behind -/

/-- Files, errors, and requests to the workshop. -/
structure Trace (κ : Type) where
  outputs : List String := []
  errors : List Failure := []
  events : List (Event κ) := []

instance : Append (Trace κ) where
  append a b := ⟨a.outputs ++ b.outputs, a.errors ++ b.errors, a.events ++ b.events⟩

/-- What a stage of the work leaves behind, over all variants with their fates. -/
def gather (stage : Variant → φ → Trace κ) (fates : List (Variant × φ)) : Trace κ where
  outputs := fates.flatMap fun f => (stage f.1 f.2).outputs
  errors := fates.flatMap fun f => (stage f.1 f.2).errors
  events := fates.flatMap fun f => (stage f.1 f.2).events

/-- The report and the requests are what is left behind by the variants that are drawn, each with one
    fate. All other variants are counted as skipped. -/
structure Accounts (vs : List Variant) (report : Report) (log : List (Event κ))
    (fates : List (Variant × φ)) (left : Trace κ) : Prop where
  variants : fates.map (·.1) = vs.filter (·.drawn)
  skipped : report.skipped + fates.length = vs.length
  outputs : report.outputs = left.outputs
  errors : report.errors = left.errors
  events : log = left.events

variable {vs : List Variant} {v : Variant} {report report' : Report} {log log' : List (Event κ)}
  {fates : List (Variant × φ)} {stage : Variant → φ → Trace κ}

namespace Accounts

theorem nothing : Accounts [] {} ([] : List (Event κ)) ([] : List (Variant × φ)) (gather stage []) := by
  constructor <;> rfl

/-- One more variant, which is drawn. -/
theorem add (h : Accounts vs report log fates (gather stage fates)) (hdrawn : v.drawn) (fate : φ)
    (houtputs : report'.outputs = report.outputs ++ (stage v fate).outputs)
    (herrors : report'.errors = report.errors ++ (stage v fate).errors)
    (hskipped : report'.skipped = report.skipped) (hlog : log' = log ++ (stage v fate).events) :
    Accounts (vs ++ [v]) report' log' (fates ++ [(v, fate)])
      (gather stage (fates ++ [(v, fate)])) where
  variants := by
    rw [List.map_append, h.variants, List.filter_append, List.filter_cons_of_pos hdrawn]
    rfl
  skipped := by
    have hcount := h.skipped
    rw [hskipped, List.length_append, List.length_append, List.length_singleton,
      List.length_singleton]
    omega
  outputs := by
    rw [houtputs, h.outputs]
    simp [gather]
  errors := by
    rw [herrors, h.errors]
    simp [gather]
  events := by
    rw [hlog, h.events]
    simp [gather]

/-- One more variant, which is not drawn. -/
theorem skip {left : Trace κ} (h : Accounts vs report log fates left) (hdrawn : ¬ v.drawn) :
    Accounts (vs ++ [v]) report.skip log fates left where
  variants := by
    rw [h.variants, List.filter_append, List.filter_cons_of_neg hdrawn, List.filter_nil,
      List.append_nil]
  skipped := by
    have hcount := h.skipped
    have hskip : report.skip.skipped = report.skipped + 1 := rfl
    rw [List.length_append, List.length_singleton, hskip]
    omega
  outputs := h.outputs
  errors := h.errors
  events := h.events

end Accounts

/-! ### Images in files -/

/-- What comes of a variant whose image goes into a file. -/
inductive FileFate where
  | unrendered (e : Failure)
  | unwritten (image : ByteArray) (e : Failure)
  | written (image : ByteArray)

/-- Every variant leaves one file or one error behind. Its image is asked for once. -/
def FileFate.leaves (options : Options) (extension : String) (v : Variant) : FileFate → Trace κ
  | .unrendered e => { errors := [e], events := [.rendered v.dot (.error e)] }
  | .unwritten image e =>
    { errors := [e]
      events := [.rendered v.dot (.ok image),
        .wrote (outputPath options v.name extension) image (.error e)] }
  | .written image =>
    { outputs := [outputPath options v.name extension]
      events := [.rendered v.dot (.ok image),
        .wrote (outputPath options v.name extension) image (.ok ())] }

section Modes

variable (workshop : Workshop ω κ) (options : Options)

theorem accounts_makeFile {fates : List (Variant × FileFate)} {w : ω}
    (h : Accounts vs report log fates (gather (FileFate.leaves options workshop.extension) fates)) :
    ∃ fates', Accounts (vs ++ [v]) (makeFile workshop.traced options v report (w, log)).1
      (makeFile workshop.traced options v report (w, log)).2.2 fates'
      (gather (FileFate.leaves options workshop.extension) fates') := by
  by_cases hdrawn : v.drawn
  · rw [makeFile, if_pos hdrawn]
    simp only [Workshop.traced]
    rcases workshop.render v.dot w with ⟨e | image, w⟩
    · exact ⟨_, h.add hdrawn (.unrendered e) (List.append_nil _).symm rfl rfl rfl⟩
    · simp only
      rcases workshop.write (outputPath options v.name workshop.extension) image w with ⟨e | _, w⟩
      · exact ⟨_, h.add hdrawn (.unwritten image e) (List.append_nil _).symm rfl rfl
          (List.append_assoc ..)⟩
      · exact ⟨_, h.add hdrawn (.written image) rfl (List.append_nil _).symm rfl
          (List.append_assoc ..)⟩
  · rw [makeFile, if_neg hdrawn]
    exact ⟨fates, h.skip hdrawn⟩

theorem accounts_makeFiles (vs : List Variant) (w : ω) :
    ∃ fates, Accounts vs (makeFiles workshop.traced options vs (w, [])).1
      (makeFiles workshop.traced options vs (w, [])).2.2 fates
      (gather (FileFate.leaves options workshop.extension) fates) := by
  induction vs using List.reverseRecOn with
  | nil => exact ⟨[], .nothing⟩
  | append_singleton vs v ih =>
    obtain ⟨fates, h⟩ := ih
    rw [makeFiles, List.foldl_append]
    exact accounts_makeFile workshop options h

/-! ### Images in a table -/

/-- Every variant leaves one error behind or none, as its image could not or could be made. -/
def cellLeaves (v : Variant) : Except Failure ByteArray → Trace κ
  | .error e => { errors := [e], events := [.rendered v.dot (.error e)] }
  | .ok image => { events := [.rendered v.dot (.ok image)] }

/-- The variant with the answer it got, if it is drawn. -/
def Made.fate? (m : Made) : Option (Variant × Except Failure ByteArray) := m.2.map (m.1, ·)

theorem map_fst_fates : ∀ {made : List Made}, (∀ m ∈ made, m.2.isSome = m.1.drawn) →
    (made.filterMap Made.fate?).map (·.1) = (made.map Prod.fst).filter (·.drawn)
  | [], _ => rfl
  | (v, answer) :: made, h => by
    obtain ⟨hanswer, hrest⟩ := List.forall_mem_cons.mp h
    cases answer with
    | none =>
      rw [List.map_cons, List.filter_cons_of_neg (fun hdrawn => nomatch hanswer.trans hdrawn),
        ← map_fst_fates hrest]
      rfl
    | some answer =>
      rw [List.map_cons, List.filter_cons_of_pos hanswer.symm, ← map_fst_fates hrest]
      rfl

/-- A table keeps account of its variants. -/
theorem Filled.accounts {made : List Made} (h : Filled made report log) :
    Accounts (made.map Prod.fst) report log (made.filterMap Made.fate?)
      (gather cellLeaves (made.filterMap Made.fate?)) where
  variants := map_fst_fates h.answered
  skipped := by
    have hdrawn := congrArg List.length (map_fst_fates h.answered)
    rw [List.length_map, ← List.countP_eq_length_filter] at hdrawn
    rw [h.skipped, hdrawn, List.length_eq_countP_add_countP (·.drawn), Nat.add_comm]
    congr 3
    funext v
    cases v.drawn <;> rfl
  outputs := by
    rw [h.outputs]
    refine (List.flatMap_eq_nil_iff.mpr fun f _ => ?_).symm
    rcases f with ⟨v, _ | _⟩ <;> rfl
  errors := by
    rw [h.errors]
    simp only [gather, List.filterMap_eq_flatMap_toList, List.flatMap_assoc]
    refine congrArg (made.flatMap ·) (funext fun m => ?_)
    rcases m with ⟨v, _ | _ | _⟩ <;> rfl
  events := by
    rw [h.events]
    simp only [gather, List.filterMap_eq_flatMap_toList, List.flatMap_assoc]
    refine congrArg (made.flatMap ·) (funext fun m => ?_)
    rcases m with ⟨v, _ | _ | _⟩ <;> rfl

theorem accounts_makeGrid (rows : List (List Variant)) (w : ω) :
    ∃ fates, Accounts rows.flatten (makeGrid workshop.traced options rows (w, [])).1
      (makeGrid workshop.traced options rows (w, [])).2.2 fates (gather cellLeaves fates) := by
  obtain ⟨made, report, w', log, hrun, rfl, h, -⟩ := makeGrid_filled workshop options rows w
  rw [hrun, ← List.map_flatten]
  exact ⟨_, h.accounts⟩

end Modes

/-! ### Images made in the background -/

/-- What comes of a variant in the first loop of native mode. -/
inductive Launch (κ : Type) where
  | unwritten (e : Failure)
  | unstarted (e : SystemError)
  | started (child : κ)

/-- An error when the DOT file could not be written, and else that file, with an error when the program
    could not be started. -/
def Launch.leaves (options : Options) (v : Variant) : Launch κ → Trace κ
  | .unwritten e =>
    { errors := [e]
      events := [.wrote (outputPath options v.name "dot") v.dot.toUTF8 (.error e)] }
  | .unstarted e =>
    { outputs := [outputPath options v.name "dot"]
      errors := [.process options.dotProgram e]
      events := [.wrote (outputPath options v.name "dot") v.dot.toUTF8 (.ok ()),
        .started options.dotProgram (outputPath options v.name "dot")
          (outputPath options v.name "png") (.error e)] }
  | .started child =>
    { outputs := [outputPath options v.name "dot"]
      events := [.wrote (outputPath options v.name "dot") v.dot.toUTF8 (.ok ()),
        .started options.dotProgram (outputPath options v.name "dot")
          (outputPath options v.name "png") (.ok child)] }

/-- What is left to wait for. -/
def Launch.pending? (options : Options) (v : Variant) : Launch κ → Option (Pending κ)
  | .started child => some ⟨outputPath options v.name "png", child⟩
  | _ => none

/-- What comes of a variant in native mode: its DOT file is not written, or the program is not started,
    or it is waited for. -/
inductive NativeFate (κ : Type) where
  | unwritten (e : Failure)
  | unstarted (e : SystemError)
  | ended (child : κ) (answer : Except SystemError Shell.Outcome)

namespace NativeFate

/-- What came of it in the first loop. -/
def launch : NativeFate κ → Launch κ
  | .unwritten e => .unwritten e
  | .unstarted e => .unstarted e
  | .ended child _ => .started child

/-- What it left behind in the first loop. -/
def launched (options : Options) (v : Variant) (fate : NativeFate κ) : Trace κ :=
  fate.launch.leaves options v

/-- What it left behind in the second loop: of a program that was started, its PNG file or an error. -/
def collected (options : Options) (v : Variant) : NativeFate κ → Trace κ
  | .ended child (.error e) =>
    { errors := [.process options.dotProgram e], events := [.finished child (.error e)] }
  | .ended child (.ok o) =>
    if o.status.success then
      { outputs := [outputPath options v.name "png"], events := [.finished child (.ok o)] }
    else
      { errors := [Graphviz.complaint options.dotProgram o], events := [.finished child (.ok o)] }
  | _ => {}

end NativeFate

section Native

variable (workshop : Workshop ω κ) (options : Options)

theorem accounts_launch {fates : List (Variant × Launch κ)} {w : ω}
    (h : Accounts vs report log fates (gather (Launch.leaves options) fates)) :
    ∃ fates', Accounts (vs ++ [v])
        (launch workshop.traced options v report
          (fates.filterMap fun f => f.2.pending? options f.1) (w, log)).1
        (launch workshop.traced options v report
          (fates.filterMap fun f => f.2.pending? options f.1) (w, log)).2.2.2
        fates' (gather (Launch.leaves options) fates') ∧
      (launch workshop.traced options v report
        (fates.filterMap fun f => f.2.pending? options f.1) (w, log)).2.1 =
          fates'.filterMap fun f => f.2.pending? options f.1 := by
  by_cases hdrawn : v.drawn
  · rw [launch, if_pos hdrawn]
    simp only [Workshop.traced]
    rcases workshop.write (outputPath options v.name "dot") v.dot.toUTF8 w with ⟨e | _, w⟩
    · refine ⟨_, h.add hdrawn (.unwritten e) (List.append_nil _).symm rfl rfl rfl, ?_⟩
      simp [Launch.pending?]
    · simp only
      rcases workshop.start options.dotProgram (outputPath options v.name "dot")
        (outputPath options v.name "png") w with ⟨e | child, w⟩
      · refine ⟨_, h.add hdrawn (.unstarted e) rfl rfl rfl (List.append_assoc ..), ?_⟩
        simp [Launch.pending?]
      · refine ⟨_, h.add hdrawn (.started child) rfl (List.append_nil _).symm rfl
          (List.append_assoc ..), ?_⟩
        simp [Launch.pending?]
  · rw [launch, if_neg hdrawn]
    exact ⟨fates, h.skip hdrawn, rfl⟩

theorem accounts_launchAll (vs : List Variant) (w : ω) :
    ∃ fates, Accounts vs (launchAll workshop.traced options vs (w, [])).1
        (launchAll workshop.traced options vs (w, [])).2.2.2 fates
        (gather (Launch.leaves options) fates) ∧
      (launchAll workshop.traced options vs (w, [])).2.1 =
        fates.filterMap fun f => f.2.pending? options f.1 := by
  induction vs using List.reverseRecOn with
  | nil => exact ⟨[], .nothing, rfl⟩
  | append_singleton vs v ih =>
    obtain ⟨fates, h, hpending⟩ := ih
    rw [launchAll_concat, hpending]
    exact accounts_launch workshop options h

/-- A program is waited for once. -/
theorem collect_traced (v : Variant) (child : κ) (report : Report) (w : ω) (log : List (Event κ)) :
    ∃ answer w', collect workshop.traced options ⟨outputPath options v.name "png", child⟩ report
        (w, log) =
      ({ report with
          outputs := report.outputs ++ (NativeFate.collected options v (.ended child answer)).outputs
          errors := report.errors ++ (NativeFate.collected options v (.ended child answer)).errors },
        w', log ++ (NativeFate.collected options v (.ended child answer)).events) := by
  refine ⟨(workshop.finish child w).1, (workshop.finish child w).2, ?_⟩
  simp only [collect, Workshop.traced]
  rcases workshop.finish child w with ⟨e | o, w⟩
  · simp [NativeFate.collected, Report.fail]
  · by_cases hsuccess : o.status.success
    · simp [NativeFate.collected, hsuccess, Report.addOutput]
    · simp [NativeFate.collected, hsuccess, Report.fail]

/-- The programs that were started are waited for, and nothing else happens any more. -/
theorem collectAll_traced : ∀ (launches : List (Variant × Launch κ)) (report : Report) (w : ω)
    (log : List (Event κ)), ∃ fates : List (Variant × NativeFate κ),
    fates.map (fun f => (f.1, f.2.launch)) = launches ∧
    ∃ w', collectAll workshop.traced options
        (launches.filterMap fun f => f.2.pending? options f.1) report (w, log) =
      ({ report with
          outputs := report.outputs ++ (gather (NativeFate.collected options) fates).outputs
          errors := report.errors ++ (gather (NativeFate.collected options) fates).errors },
        w', log ++ (gather (NativeFate.collected options) fates).events)
  | [], report, w, log => ⟨[], rfl, w, by simp [collectAll, gather]⟩
  | (v, .unwritten e) :: launches, report, w, log => by
    obtain ⟨fates, hfates, w', h⟩ := collectAll_traced launches report w log
    exact ⟨(v, .unwritten e) :: fates, by rw [List.map_cons, hfates]; rfl, w', h⟩
  | (v, .unstarted e) :: launches, report, w, log => by
    obtain ⟨fates, hfates, w', h⟩ := collectAll_traced launches report w log
    exact ⟨(v, .unstarted e) :: fates, by rw [List.map_cons, hfates]; rfl, w', h⟩
  | (v, .started child) :: launches, report, w, log => by
    have hpending : ((v, Launch.started child) :: launches).filterMap
        (fun f => f.2.pending? options f.1) = ⟨outputPath options v.name "png", child⟩ ::
          launches.filterMap fun f => f.2.pending? options f.1 := rfl
    obtain ⟨answer, w, hfirst⟩ := collect_traced workshop options v child report w log
    rw [hpending, collectAll_cons, hfirst]
    obtain ⟨fates, hfates, w', h⟩ := collectAll_traced launches { report with
      outputs := report.outputs ++ (NativeFate.collected options v (.ended child answer)).outputs
      errors := report.errors ++ (NativeFate.collected options v (.ended child answer)).errors } w
      (log ++ (NativeFate.collected options v (.ended child answer)).events)
    refine ⟨(v, .ended child answer) :: fates, by rw [List.map_cons, hfates]; rfl, w', ?_⟩
    rw [h]
    simp only [List.append_assoc]
    rfl

theorem accounts_makeNative (vs : List Variant) (w : ω) :
    ∃ fates, Accounts vs (makeNative workshop.traced options vs (w, [])).1
      (makeNative workshop.traced options vs (w, [])).2.2 fates
      (gather (NativeFate.launched options) fates ++ gather (NativeFate.collected options) fates) := by
  obtain ⟨launches, h, hpending⟩ := accounts_launchAll workshop options vs w
  obtain ⟨fates, rfl, w', hcollect⟩ := collectAll_traced workshop options launches
    (launchAll workshop.traced options vs (w, [])).1
    (launchAll workshop.traced options vs (w, [])).2.2.1
    (launchAll workshop.traced options vs (w, [])).2.2.2
  have hleft : gather (Launch.leaves options) (fates.map fun f => (f.1, f.2.launch)) =
      gather (NativeFate.launched options) fates := by
    simp only [gather, List.flatMap_map]
    rfl
  rw [hleft] at h
  refine ⟨fates, ?_⟩
  rw [makeNative_eq, hpending, hcollect]
  constructor
  · rw [← h.variants, List.map_map]
    rfl
  · have := h.skipped
    rwa [List.length_map] at this
  · simp only [h.outputs]
    rfl
  · simp only [h.errors]
    rfl
  · simp only [h.events]
    rfl

end Native

/-! ### Counting -/

/-- Where every fate leaves one file or one error behind, there are as many of these as fates. -/
theorem length_gather (stage : Variant → φ → Trace κ)
    (h : ∀ v fate, (stage v fate).outputs.length + (stage v fate).errors.length = 1) :
    ∀ fates, (gather stage fates).outputs.length + (gather stage fates).errors.length = fates.length
  | [] => rfl
  | (v, fate) :: fates => by
    have hfirst := h v fate
    have hrest := length_gather stage h fates
    simp only [gather, List.flatMap_cons, List.length_append, List.length_cons] at hrest ⊢
    omega

/-- In native mode every fate leaves one PNG file or one error behind, in one loop or the other. -/
theorem length_native (options : Options) : ∀ fates : List (Variant × NativeFate κ),
    (gather (NativeFate.collected options) fates).outputs.length +
      ((gather (NativeFate.launched options) fates).errors.length +
        (gather (NativeFate.collected options) fates).errors.length) = fates.length
  | [] => rfl
  | (v, fate) :: fates => by
    have hfirst : (fate.collected options v).outputs.length +
        ((fate.launched options v).errors.length + (fate.collected options v).errors.length) = 1 := by
      rcases fate with _ | _ | ⟨child, _ | o⟩
      · rfl
      · rfl
      · rfl
      · by_cases hsuccess : o.status.success
        · simp [NativeFate.collected, NativeFate.launched, NativeFate.launch, Launch.leaves, hsuccess]
        · simp [NativeFate.collected, NativeFate.launched, NativeFate.launch, Launch.leaves, hsuccess]
    have hrest := length_native options fates
    simp only [gather, List.flatMap_cons, List.length_append, List.length_cons] at hrest ⊢
    omega

/-- Where the texts that images were asked for hang on the variants only, so do they all together. -/
theorem texts_gather (texts : Variant → List String)
    (h : ∀ v fate, (stage v fate).events.filterMap Event.text? = texts v)
    (fates : List (Variant × φ)) :
    (gather stage fates).events.filterMap Event.text? = (fates.map (·.1)).flatMap texts := by
  simp only [gather, List.filterMap_flatMap, h, List.flatMap_map]

/-! ### Generation -/

/-- Images went into files: for each variant that is drawn one was asked for, in order, and there is
    one file or one error. -/
structure FilesMade (options : Options) (extension : String) (vs : List Variant) (report : Report)
    (log : List (Event κ)) (fates : List (Variant × FileFate)) : Prop extends
    Accounts vs report log fates (gather (FileFate.leaves options extension) fates) where
  asked : log.filterMap Event.text? = (vs.filter (·.drawn)).map (·.dot)
  total : report.outputs.length + report.errors.length + report.skipped = vs.length

/-- Programs made the images: none was asked for, and for each variant that is drawn there is one PNG
    file or one error, after all the DOT files and what went wrong with these. -/
structure ProgramsRun (options : Options) (vs : List Variant) (report : Report)
    (log : List (Event κ)) (fates : List (Variant × NativeFate κ)) : Prop extends
    Accounts vs report log fates
      (gather (NativeFate.launched options) fates ++ gather (NativeFate.collected options) fates) where
  asked : log.filterMap Event.text? = []
  total : (gather (NativeFate.collected options) fates).outputs.length + report.errors.length +
    report.skipped = vs.length

/-- Images went into a table: for each variant that is drawn one was asked for, in order, and there are
    no files. -/
structure CellsMade (vs : List Variant) (report : Report) (log : List (Event κ))
    (fates : List (Variant × Except Failure ByteArray)) : Prop extends
    Accounts vs report log fates (gather cellLeaves fates) where
  asked : log.filterMap Event.text? = (vs.filter (·.drawn)).map (·.dot)
  none_written : report.outputs = []

section Generation

variable (workshop : Workshop ω κ) (options : Options)

theorem makeFiles_accounts (vs : List Variant) (w : ω) :
    ∃ fates, FilesMade options workshop.extension vs (makeFiles workshop.traced options vs (w, [])).1
      (makeFiles workshop.traced options vs (w, [])).2.2 fates := by
  obtain ⟨fates, h⟩ := accounts_makeFiles workshop options vs w
  refine ⟨fates, h, ?_, ?_⟩
  · rw [h.events, texts_gather fun v => [v.dot], h.variants, ← List.map_eq_flatMap]
    intro v fate
    cases fate <;> rfl
  · have hcount := length_gather (FileFate.leaves options workshop.extension : _ → _ → Trace κ)
      (fun v fate => by cases fate <;> rfl) fates
    rw [h.outputs, h.errors, hcount, Nat.add_comm, h.skipped]

theorem makeNative_accounts (vs : List Variant) (w : ω) :
    ∃ fates, ProgramsRun options vs (makeNative workshop.traced options vs (w, [])).1
      (makeNative workshop.traced options vs (w, [])).2.2 fates := by
  obtain ⟨fates, h⟩ := accounts_makeNative workshop options vs w
  refine ⟨fates, h, ?_, ?_⟩
  · have hlaunched : ∀ v (fate : NativeFate κ),
        (fate.launched options v).events.filterMap Event.text? = [] := by
      intro v fate
      cases fate <;> rfl
    have hcollected : ∀ v (fate : NativeFate κ),
        (fate.collected options v).events.filterMap Event.text? = [] := by
      intro v fate
      rcases fate with _ | _ | ⟨child, _ | o⟩
      · rfl
      · rfl
      · rfl
      · rw [NativeFate.collected]
        split <;> rfl
    have hevents : (gather (NativeFate.launched options) fates ++
        gather (NativeFate.collected options) fates).events =
        (gather (NativeFate.launched options) fates).events ++
          (gather (NativeFate.collected options) fates).events := rfl
    rw [h.events, hevents, List.filterMap_append, texts_gather (fun _ => []) hlaunched,
      texts_gather (fun _ => []) hcollected]
    simp
  · have herrors : (gather (NativeFate.launched options) fates ++
        gather (NativeFate.collected options) fates).errors =
        (gather (NativeFate.launched options) fates).errors ++
          (gather (NativeFate.collected options) fates).errors := rfl
    have hcount := length_native options fates
    have hskipped := h.skipped
    rw [h.errors, herrors, List.length_append]
    omega

theorem makeGrid_accounts (rows : List (List Variant)) (w : ω) :
    ∃ fates, CellsMade rows.flatten (makeGrid workshop.traced options rows (w, [])).1
      (makeGrid workshop.traced options rows (w, [])).2.2 fates := by
  obtain ⟨fates, h⟩ := accounts_makeGrid workshop options rows w
  refine ⟨fates, h, ?_, ?_⟩
  · rw [h.events, texts_gather fun v => [v.dot], h.variants, ← List.map_eq_flatMap]
    intro v fate
    cases fate <;> rfl
  · rw [h.outputs]
    refine List.flatMap_eq_nil_iff.mpr fun f _ => ?_
    rcases f with ⟨v, _ | _⟩
    · rfl
    · rfl

end Generation

/-- What a generation does with variants, in each of its modes: no variant is lost, and none is counted
    twice. -/
structure Conserves (options : Options) (extension : String) (vs : List Variant) (report : Report)
    (log : List (Event κ)) : Prop where
  files : options.grid = false → options.native = false →
    ∃ fates, FilesMade options extension vs report log fates
  programs : options.grid = false → options.native = true →
    ∃ fates, ProgramsRun options vs report log fates
  cells : options.grid = true → extension = gridExtension → ∃ fates, CellsMade vs report log fates
  /-- A table of other images is refused, and then nothing at all is done. -/
  refused : options.grid = true → extension ≠ gridExtension →
    report = { errors := [.gridFormat extension] } ∧ log = []

/-- A generation keeps account of all variants. There is one for each provider with each processor,
    provider by provider, and each is drawn alone. This is so whatever the workshop answers, and no
    matter whether it keeps a list of that. -/
theorem generate_conserves {η : Type} (model : Model η) (providers : List (Provider η))
    (processors : List (Processor η)) (options : Options) (workshop : Workshop ω κ) (w : ω) :
    ∃ (vary : Provider η → Processor η → Variant) (report : Report) (w' : ω) (log : List (Event κ)),
      (∀ provider processor,
        DrawnAlone model providers processors options provider processor (vary provider processor)) ∧
      generate model providers processors options workshop w = (report, w') ∧
      generate model providers processors options workshop.traced (w, []) = (report, w', log) ∧
      Conserves options workshop.extension
        (providers.flatMap fun provider => (usedProcessors processors).map (vary provider)) report
        log := by
  have hsame := generate_follows options workshop.traced_follows model providers processors (w, [])
  have hvs : (variantRows model options.themeInUse providers processors).flatten =
      providers.flatMap fun provider => (usedProcessors processors).map
        (variantOf model providers processors options provider) := by
    rw [variantRows_eq, List.flatMap_def]
  rcases hrun : generate model providers processors options workshop.traced (w, []) with
    ⟨report, w', log⟩
  rw [hrun] at hsame
  refine ⟨variantOf model providers processors options, report, w', log,
    variantOf_alone model providers processors options, hsame.symm, rfl, ?_⟩
  rw [← hvs]
  refine ⟨fun hgrid hnative => ?_, fun hgrid hnative => ?_, fun hgrid hsvg => ?_,
    fun hgrid hsvg => ?_⟩
  · rw [generate, if_neg (by simp [hgrid]), if_neg (by simp [hnative])] at hrun
    have hfiles := makeFiles_accounts workshop options
      (variantRows model options.themeInUse providers processors).flatten w
    rwa [hrun] at hfiles
  · rw [generate, if_neg (by simp [hgrid]), if_pos hnative] at hrun
    have hprograms := makeNative_accounts workshop options
      (variantRows model options.themeInUse providers processors).flatten w
    rwa [hrun] at hprograms
  · rw [generate, if_pos hgrid, if_pos (show workshop.traced.extension = gridExtension from hsvg)]
      at hrun
    have hcells := makeGrid_accounts workshop options
      (variantRows model options.themeInUse providers processors) w
    rwa [hrun] at hcells
  · rw [generate, if_pos hgrid, if_neg (show ¬ workshop.traced.extension = gridExtension from hsvg)]
      at hrun
    cases hrun
    exact ⟨rfl, rfl⟩

/-- A workshop that fails to make its first image and to write its second file. -/
def Workshop.flaky : Workshop (Nat × Nat) Unit where
  extension := "svg"
  render dot w :=
    (if w.1 = 0 then .error (.process "dot" .notFound) else .ok dot.toUTF8, w.1 + 1, w.2)
  write path _ w :=
    (if w.2 = 1 then .error (.io path .permissionDenied) else .ok (), w.1, w.2 + 1)
  start _ _ _ w := (.error .unsupported, w)
  finish _ w := (.error .unsupported, w)

namespace Document

/-- Two systems under two processors, of which the second system is drawn under one only. -/
def pair : Document where
  instances := [{ id := "api" }, { id := "db" }]
  processors := [{ name := "team" }, { name := "plain" }]
  systems := [{ name := "all", contains := ["api"] },
    { name := "data", contains := ["db"], only := some ["team"] }]

/-- A drawing of one instance, with the colours of titles, of the background, of lines and of names. -/
def sheet (label background line font title ident name : String) : String :=
  "digraph \x7b\n" ++
  " graph [ tooltip = \" \", fontname = helvetica, nodesep = 0.5, label = <" ++ title ++
    "<BR/><BR/><BR/>>, labelloc=top, fontcolor = " ++ label ++ ", bgcolor = " ++ background ++
    ", labeljust=left, fontsize = 10 ]\n" ++
  " node [ tooltip = \" \", fontname = helvetica, shape = box, style = \"filled,rounded\"" ++
    ", color = " ++ line ++ ", fontcolor = " ++ font ++ ", fillcolor = invis, fontsize = 14 ]\n" ++
  " edge [ tooltip = \" \", fontname = helvetica, fontcolor = \"" ++ line ++ "\", color = \"" ++ line ++
    "\" , fontsize = 10 ]\n" ++
  " " ++ ident ++ " [ label = <<TABLE BORDER=\"0\"><TR><TD>" ++ name ++ "</TD></TR></TABLE>> ];\n" ++
  "\x7d"

/-- A drawing of one instance in the dark theme. -/
def darkSheet : (title ident name : String) → String :=
  sheet "lightcyan3" "grey12" "bisque" "\"#FFF4E7\""

/-- All four variants are accounted for: one file is written, the image of one variant and the file of
    another one fail, and the fourth is left out. -/
theorem pair_conserved : pair.effectiveOptions.grid = false ∧ pair.effectiveOptions.native = false ∧
    ∃ report w' log, pair.generate .flaky (0, 0) = (report, w') ∧
      pair.generate Workshop.flaky.traced ((0, 0), []) = (report, w', log) ∧
      report.outputs = ["target/all-plain.svg"] ∧
      report.errors =
        [.process "dot" .notFound, .io "target/data-team.svg" .permissionDenied] ∧
      report.skipped = 1 ∧
      log.filterMap Event.text? = [darkSheet "all-team" "instance_100" "api",
        darkSheet "all-plain" "instance_100" "api", darkSheet "data-team" "instance_101" "db"] ∧
      report.outputs.length + report.errors.length + report.skipped = 4 := by
  obtain ⟨vary, report, w', log, -, hrun, htraced, h⟩ := generate_conserves pair.declare pair.providers
    pair.views pair.effectiveOptions .flaky (0, 0)
  obtain ⟨fates, hfates⟩ := h.files rfl rfl
  have hreport : (pair.generate .flaky (0, 0)).1 = report := congrArg Prod.fst hrun
  have hlog : (pair.generate Workshop.flaky.traced ((0, 0), [])).2.2 = log :=
    congrArg (fun r => r.2.2) htraced
  refine ⟨rfl, rfl, report, w', log, hrun, htraced, ?_, ?_, ?_, ?_, hfates.total⟩
  · rw [← hreport]
    decide +kernel
  · rw [← hreport]
    decide +kernel
  · rw [← hreport]
    decide +kernel
  · rw [← hlog]
    decide +kernel

end Document

end Schematic
