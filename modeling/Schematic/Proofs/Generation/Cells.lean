import Schematic.Proofs.Generation.Traced

/-! The cells of a table. Rows, titles and cells are recorded one by one as images are asked for. Every
    variant fills its own cell, whether there is an image to put into it or not, and so each row comes
    to be as long as the list of its variants, and the titles are those of the first row. -/

namespace Schematic

variable {ω κ : Type}

/-- A variant, with the answer to the request for its image if there was one. -/
abbrev Made := Variant × Option (Except Failure ByteArray)

namespace Made

/-- The title of the column. -/
def title (m : Made) : String := m.1.processor.getD ""

/-- The image, or nothing. -/
def cell : Made → String
  | (_, some (.ok image)) => Text.lossy image
  | _ => ""

def error? : Made → Option Failure
  | (_, some (.error e)) => some e
  | _ => none

/-- The request, with its answer. -/
def event? (m : Made) : Option (Event κ) := m.2.map (.rendered m.1.dot)

end Made

/-- The report and the list of requests are those of the variants so far. -/
structure Filled (made : List Made) (report : Report) (log : List (Event κ)) : Prop where
  answered : ∀ m ∈ made, m.2.isSome = m.1.drawn
  outputs : report.outputs = []
  errors : report.errors = made.filterMap Made.error?
  skipped : report.skipped = (made.map Prod.fst).countP (!·.drawn)
  events : log = made.filterMap Made.event?

namespace Grid

/-- What is recorded of a variant in the row that it is in. -/
def record (g : Grid) (m : Made) : Grid := (g.addColumn m.title).addCell m.cell

/-- What is recorded of a row. -/
def recordRow (g : Grid) (row : List Made) : Grid :=
  row.foldl record (Schematic.startRow g (row.map Prod.fst))

/-- A row of the table, led by the name of its first variant's system. -/
def rowOf (row : List Made) : String × List String :=
  ((row.head?.map (·.1.system)).getD "", row.map Made.cell)

/-! ### What is recorded -/

/-- In a row that has begun, a variant adds a cell, and a title if no row is above. -/
theorem record_eq {g : Grid} {above : List (String × List String)} {lead : String}
    {cells : List String} (hg : g.rows = above ++ [(lead, cells)]) (m : Made) :
    g.record m = { header := if above = [] then g.header.map (· ++ [m.title]) else g.header
                   rows := above ++ [(lead, cells ++ [m.cell])] } := by
  have hcount : 1 < g.rows.length ↔ above ≠ [] := by
    rw [hg, List.length_append, List.length_singleton, ← List.length_pos_iff]
    omega
  rw [record, addColumn]
  by_cases habove : above = []
  · rw [if_neg (by rw [hcount]; exact not_not_intro habove), if_pos habove, addCell]
    simp [hg]
  · rw [if_pos (hcount.mpr habove), if_neg habove, addCell]
    simp [hg]

/-- Variants fill the row from left to right. -/
theorem foldl_record : ∀ (row : List Made) {g : Grid} {above : List (String × List String)}
    {lead : String} {cells : List String}, g.rows = above ++ [(lead, cells)] →
    row.foldl record g =
      { header := if above = [] then g.header.map (· ++ row.map Made.title) else g.header
        rows := above ++ [(lead, cells ++ row.map Made.cell)] }
  | [], g, above, lead, cells, hg => by
    obtain ⟨header, rows⟩ := g
    subst hg
    cases header <;> simp
  | m :: row, g, above, lead, cells, hg => by
    rw [List.foldl_cons, record_eq hg, foldl_record row rfl]
    by_cases habove : above = []
    · simp only [if_pos habove, Option.map_map, List.map_cons, List.append_assoc,
        List.singleton_append]
      cases g.header <;> simp
    · simp only [if_neg habove, List.map_cons, List.append_assoc, List.singleton_append]

/-- A row that is not empty goes below the others. -/
theorem recordRow_eq (g : Grid) {row : List Made} (hrow : row ≠ []) :
    g.recordRow row =
      { header := if g.rows = [] then g.header.map (· ++ row.map Made.title) else g.header
        rows := g.rows ++ [rowOf row] } := by
  obtain ⟨m, rest, rfl⟩ := List.exists_cons_of_ne_nil hrow
  have hstarted : (Schematic.startRow g ((m :: rest).map Prod.fst)).rows =
      g.rows ++ [(m.1.system, [])] := rfl
  rw [recordRow, foldl_record _ hstarted]
  rfl

/-- Rows go below each other, and the first of all gives the titles. -/
theorem foldl_recordRow : ∀ (rows : List (List Made)) (g : Grid), (∀ row ∈ rows, row ≠ []) →
    rows.foldl recordRow g =
      { header := if g.rows = [] then g.header.map (· ++ (rows.head?.getD []).map Made.title)
                  else g.header
        rows := g.rows ++ rows.map rowOf }
  | [], g, _ => by
    obtain ⟨header, rows⟩ := g
    cases header <;> simp
  | row :: rows, g, hrows => by
    obtain ⟨hrow, hrest⟩ := List.forall_mem_cons.mp hrows
    rw [List.foldl_cons, foldl_recordRow rows _ hrest, recordRow_eq g hrow]
    simp

end Grid

/-! ### What is asked for -/

namespace Filled

variable {made : List Made} {report report' : Report} {log log' : List (Event κ)}

theorem nothing : Filled [] {} ([] : List (Event κ)) :=
  ⟨fun _ h => absurd h List.not_mem_nil, rfl, rfl, rfl, rfl⟩

/-- One more variant, with what comes of it. -/
theorem add (h : Filled made report log) {m : Made} (hanswered : m.2.isSome = m.1.drawn)
    (houtputs : report'.outputs = report.outputs)
    (herrors : report'.errors = report.errors ++ m.error?.toList)
    (hskipped : report'.skipped = report.skipped + if m.1.drawn then 0 else 1)
    (hlog : log' = log ++ m.event?.toList) : Filled (made ++ [m]) report' log' where
  answered := List.forall_mem_append.mpr ⟨h.answered, List.forall_mem_singleton.mpr hanswered⟩
  outputs := houtputs.trans h.outputs
  errors := by
    rw [herrors, h.errors, List.filterMap_append]
    cases herror : m.error? <;> simp [herror]
  skipped := by
    rw [hskipped, h.skipped, List.map_append, List.countP_append]
    cases hdrawn : m.1.drawn <;> simp [hdrawn]
  events := by
    rw [hlog, h.events, List.filterMap_append]
    cases hevent : m.event? (κ := κ) <;> simp [hevent]

end Filled

section Making

variable {made : List Made} {report : Report} {log : List (Event κ)} (workshop : Workshop ω κ)

theorem filled_makeCell (h : Filled made report log) (v : Variant) (w : ω) :
    ∃ (m : Made) (report' : Report) (w' : ω) (log' : List (Event κ)),
      makeCell workshop.traced v report (w, log) = (m.cell, report', w', log') ∧
      m.1 = v ∧ Filled (made ++ [m]) report' log' := by
  by_cases hdrawn : v.drawn
  · rw [makeCell, if_pos hdrawn]
    simp only [Workshop.traced]
    rcases workshop.render v.dot w with ⟨e | image, w⟩
    · exact ⟨(v, some (.error e)), _, _, _, rfl, rfl,
        h.add hdrawn.symm rfl rfl (by simp [Report.fail, hdrawn]) rfl⟩
    · exact ⟨(v, some (.ok image)), _, _, _, rfl, rfl,
        h.add hdrawn.symm rfl (List.append_nil _).symm (by simp [hdrawn]) rfl⟩
  · rw [makeCell, if_neg hdrawn]
    have hfalse : v.drawn = false := Bool.eq_false_iff.mpr hdrawn
    exact ⟨(v, none), _, _, _, rfl, rfl, h.add hfalse.symm rfl (List.append_nil _).symm
      (by simp [Report.skip, hfalse]) (List.append_nil _).symm⟩

/-- The variants of a row fill their cells from left to right. -/
theorem filled_makeCells : ∀ (vs : List Variant) {made : List Made} {report : Report}
    {log : List (Event κ)} (g : Grid) (w : ω), Filled made report log →
    ∃ (row : List Made) (report' : Report) (w' : ω) (log' : List (Event κ)),
      makeCells workshop.traced g report (w, log) vs =
        (row.foldl Grid.record g, report', w', log') ∧
      row.map Prod.fst = vs ∧ Filled (made ++ row) report' log'
  | [], made, report, log, g, w, h => ⟨[], report, w, log, rfl, rfl, by rwa [List.append_nil]⟩
  | v :: vs, made, report, log, g, w, h => by
    obtain ⟨m, report, w, log, hcell, rfl, hfirst⟩ := filled_makeCell workshop h v w
    obtain ⟨row, report', w', log', hcells, rfl, hrest⟩ :=
      filled_makeCells vs (g.record m) w hfirst
    refine ⟨m :: row, report', w', log', ?_, rfl, by rwa [List.append_assoc] at hrest⟩
    rw [makeCells, hcell]
    exact hcells

/-- Rows are filled from top to bottom. -/
theorem filled_makeRows : ∀ (vss : List (List Variant)) {made : List Made} {report : Report}
    {log : List (Event κ)} (g : Grid) (w : ω), Filled made report log →
    ∃ (rows : List (List Made)) (report' : Report) (w' : ω) (log' : List (Event κ)),
      makeRows workshop.traced g report (w, log) vss =
        (rows.foldl Grid.recordRow g, report', w', log') ∧
      rows.map (List.map Prod.fst) = vss ∧ Filled (made ++ rows.flatten) report' log'
  | [], made, report, log, g, w, h =>
    ⟨[], report, w, log, rfl, rfl, by rwa [List.flatten_nil, List.append_nil]⟩
  | vs :: vss, made, report, log, g, w, h => by
    obtain ⟨row, report, w, log, hcells, rfl, hfirst⟩ :=
      filled_makeCells workshop vs (startRow g vs) w h
    obtain ⟨rows, report', w', log', hrows, rfl, hrest⟩ :=
      filled_makeRows vss (g.recordRow row) w hfirst
    refine ⟨row :: rows, report', w', log', ?_, rfl, by rwa [List.append_assoc] at hrest⟩
    rw [makeRows, hcells]
    exact hrows

end Making

variable (workshop : Workshop ω κ) (options : Options)

/-- A table has a row for each list of variants, with a cell for each of them, and the titles are those of
    the first row. -/
theorem makeGrid_filled (vss : List (List Variant)) (w : ω) :
    ∃ (rows : List (List Made)) (report : Report) (w' : ω) (log : List (Event κ)),
      makeGrid workshop.traced options vss (w, []) = (report, w', log) ∧
      rows.map (List.map Prod.fst) = vss ∧ Filled rows.flatten report log ∧
      ((∀ vs ∈ vss, vs ≠ []) → report.grid = some
        { header := if options.header then some ((rows.head?.getD []).map Made.title) else none
          rows := rows.map Grid.rowOf }) := by
  obtain ⟨rows, report, w', log, hrun, rfl, h⟩ :=
    filled_makeRows workshop vss (.start options.header) w .nothing
  refine ⟨rows, { report with grid := some (rows.foldl Grid.recordRow (.start options.header)) }, w',
    log, ?_, rfl, ⟨h.answered, h.outputs, h.errors, h.skipped, h.events⟩, fun hvss => ?_⟩
  · rw [makeGrid, hrun]
  · have hrows : ∀ row ∈ rows, row ≠ [] := by
      rintro _ hrow rfl
      exact hvss _ (List.mem_map_of_mem hrow) rfl
    rw [Grid.foldl_recordRow rows _ hrows]
    cases options.header <;> rfl

end Schematic
