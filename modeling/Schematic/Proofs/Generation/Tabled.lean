import Schematic.Proofs.Generation.Accounts

/-! The text of a table. However many systems and processors there are, whichever variants are left out
    and whatever images cannot be made, the table is a full rectangle: a row for each provider, with a
    cell for each processor. -/

namespace Schematic

/-- The row of titles; the corner above the titles of the rows is empty. -/
def titleRow (titles : List String) : String :=
  "<tr><th></th>" ++ String.join (titles.map fun title => "<th>" ++ title ++ "</th>") ++ "</tr>\n"

/-- A row of cells, which has a title of its own in a table with titles. -/
def cellRow (titled : Bool) (title : String) (cells : List String) : String :=
  "<tr>" ++ (if titled then "<th>" ++ title ++ "</th>" else "")
    ++ String.join (cells.map fun cell => "<td>" ++ cell ++ "</td>") ++ "</tr>\n"

/-- The text of a table, from the titles of columns and rows and the cells of each row. -/
def tableText (titled : Bool) (columns rows : List String) (cells : List (List String)) : String :=
  "<table class='archix-table'>\n" ++ (if titled then titleRow columns else "")
    ++ String.join (List.zipWith (cellRow titled) rows cells) ++ "</table>"

/-- What a generation of a table leaves behind: the variants with what came of them, row by row, all that
    there is to say about these, and the text of the table. -/
structure Tabled {κ : Type} (titled : Bool) (columns rows : List String)
    (variants : List (List Variant)) (report : Report) (log : List (Event κ))
    (made : List (List Made)) : Prop extends Filled made.flatten report log where
  variants : made.map (List.map Prod.fst) = variants
  text : report.grid.map Grid.text =
    some (tableText titled columns rows (made.map (List.map Made.cell)))

/-! ### Text -/

namespace Grid

theorem tagged_eq {tag opens closes : String} (hopens : "<" ++ tag ++ ">" = opens)
    (hcloses : "</" ++ tag ++ ">" = closes) (inside : String) :
    tagged tag inside = opens ++ inside ++ closes := by
  rw [tagged, hopens, ← hcloses]
  simp only [String.append_assoc]

theorem tagged_th (inside : String) : tagged "th" inside = "<th>" ++ inside ++ "</th>" :=
  tagged_eq (by decide) (by decide) inside

theorem tagged_td (inside : String) : tagged "td" inside = "<td>" ++ inside ++ "</td>" :=
  tagged_eq (by decide) (by decide) inside

theorem tagged_tr (inside : String) : tagged "tr" inside ++ "\n" = "<tr>" ++ inside ++ "</tr>\n" := by
  have htagged : tagged "tr" inside = "<tr>" ++ inside ++ "</tr>" :=
    tagged_eq (by decide) (by decide) inside
  have hline : "</tr>" ++ "\n" = "</tr>\n" := by decide
  rw [htagged, String.append_assoc, hline]

theorem headerRow_eq (titles : List String) : headerRow titles = titleRow titles := by
  have hcorner : "<tr>" ++ ("<th>" ++ "" ++ "</th>") = "<tr><th></th>" := by decide
  rw [headerRow, tagged_tr, titleRow, ← hcorner]
  simp only [funext tagged_th, String.append_assoc]

theorem row_eq (titled : Bool) (r : String × List String) :
    row titled r = cellRow titled r.1 r.2 := by
  rw [row, tagged_tr, tagged_th, cellRow]
  simp only [funext tagged_td, String.append_assoc]

/-- The text of a table with these titles and rows. -/
theorem text_eq (titled : Bool) (columns : List String) (rows : List (String × List String)) :
    text { header := if titled then some columns else none, rows } =
      tableText titled columns (rows.map Prod.fst) (rows.map Prod.snd) := by
  have hrows : ∀ titled, String.join (rows.map (row titled)) =
      String.join (List.zipWith (cellRow titled) (rows.map Prod.fst) (rows.map Prod.snd)) := by
    intro titled
    rw [List.zipWith_map, List.zipWith_self, funext (row_eq titled)]
  unfold text tableText
  cases titled with
  | false => simp only [Bool.false_eq_true, if_false, Option.isSome_none, hrows]
  | true => simp only [if_true, Option.isSome_some, headerRow_eq, hrows]

end Grid

/-! ### Generation -/

theorem rowOf_eq (row : List Made) :
    (Grid.rowOf row).1 = ((row.map Prod.fst).head?.map (·.system)).getD "" := by
  cases row <;> rfl

theorem columns_eq (made : List (List Made)) : (made.head?.getD []).map Made.title =
    ((made.map (List.map Prod.fst)).head?.getD []).map fun v => v.processor.getD "" := by
  cases made with
  | nil => rfl
  | cons row rest =>
    show row.map Made.title = (row.map Prod.fst).map _
    rw [List.map_map]
    rfl

variable {η ω κ : Type} (workshop : Workshop ω κ)

/-- Where every provider has a variant for each processor, the table has a row for each provider, with a
    cell for each processor. -/
theorem makeGrid_tabled (options : Options) (vary : Provider η → Processor η → Variant)
    (hvary : ∀ provider processor, (vary provider processor).processor = processor.name)
    (providers : List (Provider η)) (first : Processor η) (others : List (Processor η)) (w : ω) :
    ∃ (report : Report) (w' : ω) (log : List (Event κ)) (made : List (List Made)),
      makeGrid workshop.traced options
        (providers.map fun provider => (first :: others).map (vary provider)) (w, []) =
          (report, w', log) ∧
      Tabled options.header
        (if providers.isEmpty then [] else (first :: others).map fun p => p.name.getD "")
        (providers.map fun provider => (vary provider first).system)
        (providers.map fun provider => (first :: others).map (vary provider)) report log made := by
  obtain ⟨made, report, w', log, hrun, hmade, hfilled, hgrid⟩ := makeGrid_filled workshop options
    (providers.map fun provider => (first :: others).map (vary provider)) w
  have hcolumns : (made.head?.getD []).map Made.title =
      if providers.isEmpty then [] else (first :: others).map fun p => p.name.getD "" := by
    rw [columns_eq, hmade]
    cases providers with
    | nil => rfl
    | cons provider rest => simp [hvary]
  have hrows : made.map (fun row => (Grid.rowOf row).1) =
      providers.map fun provider => (vary provider first).system := by
    have hlead := congrArg (List.map fun vs : List Variant => (vs.head?.map (·.system)).getD "") hmade
    rw [List.map_map, List.map_map] at hlead
    rw [funext rowOf_eq]
    exact hlead
  have hcells : made.map (fun row => (Grid.rowOf row).2) = made.map (List.map Made.cell) := rfl
  refine ⟨report, w', log, made, hrun, hfilled, hmade, ?_⟩
  rw [hgrid (by simp), Option.map_some, Grid.text_eq, hcolumns, List.map_map, List.map_map, ← hrows,
    ← hcells]
  rfl

/-- The table is a full rectangle. For any providers and processors, and whatever the workshop answers,
    there is an image, an error or nothing for every variant, as it was drawn or not; and the table has
    each processor's title once and a row for each provider, led by the name that it gave its system
    under the first processor, with one cell for each processor. Every variant is drawn alone. -/
theorem generate_tables (model : Model η) (providers : List (Provider η))
    (processors : List (Processor η)) (options : Options) (hgrid : options.grid = true)
    (hsvg : workshop.extension = gridExtension) (w : ω) :
    ∃ (vary : Provider η → Processor η → Variant) (first : Processor η) (others : List (Processor η))
        (report : Report) (w' : ω) (log : List (Event κ)) (made : List (List Made)),
      (∀ provider processor,
        DrawnAlone model providers processors options provider processor (vary provider processor)) ∧
      usedProcessors processors = first :: others ∧
      generate model providers processors options workshop w = (report, w') ∧
      generate model providers processors options workshop.traced (w, []) = (report, w', log) ∧
      Tabled options.header
        (if providers.isEmpty then [] else (first :: others).map fun p => p.name.getD "")
        (providers.map fun provider => (vary provider first).system)
        (providers.map fun provider => (first :: others).map (vary provider)) report log made := by
  obtain ⟨first, others, hprocessors⟩ : ∃ first others,
      usedProcessors processors = first :: others := by
    cases processors with
    | nil => exact ⟨_, _, rfl⟩
    | cons first others => exact ⟨first, others, rfl⟩
  have hsame := generate_follows options workshop.traced_follows model providers processors (w, [])
  obtain ⟨report, w', log, made, hrun, htabled⟩ := makeGrid_tabled workshop options
    (variantOf model providers processors options) (fun _ _ => rfl) providers first others w
  have htraced : generate model providers processors options workshop.traced (w, []) =
      (report, w', log) := by
    rw [generate, if_pos hgrid, if_pos (show workshop.traced.extension = gridExtension from hsvg),
      ← hrun, variantRows_eq, hprocessors]
  rw [htraced] at hsame
  exact ⟨variantOf model providers processors options, first, others, report, w', log, made,
    variantOf_alone model providers processors options, hprocessors, hsame.symm, htraced, htabled⟩

/-- A workshop that fails to make its first image, and numbers all others. -/
def Workshop.stumbling : Workshop Nat Unit where
  extension := "svg"
  render _ w :=
    (if w = 0 then .error (.process "dot" .notFound)
      else .ok ("<svg>" ++ toString w ++ "</svg>").toUTF8, w + 1)
  write path _ w := (.error (.io path .permissionDenied), w)
  start _ _ _ w := (.error .unsupported, w)
  finish _ w := (.error .unsupported, w)

namespace Document

/-- The same systems and processors, for a table with titles. -/
def charted : Document := { pair with options := { grid := true, header := true } }

/-- A drawing of one instance in the light theme. -/
def lightSheet : (title ident name : String) → String :=
  sheet "\"#616f6f\"" "white" "bisque4" "\"#534b40\""

/-- The workshop fails at the first image, and one variant is left out; still there are two rows of two
    cells. -/
theorem charted_tabled : charted.effectiveOptions.grid = true ∧
    Workshop.stumbling.extension = gridExtension ∧
    ∃ report w' log, charted.generate .stumbling 0 = (report, w') ∧
      charted.generate Workshop.stumbling.traced (0, []) = (report, w', log) ∧
      report.grid.map Grid.text = some (tableText true ["team", "plain"] ["all", "data"]
        [["", "<svg>1</svg>"], ["<svg>2</svg>", ""]]) ∧
      report.outputs = [] ∧ report.errors = [.process "dot" .notFound] ∧ report.skipped = 1 ∧
      log.filterMap Event.text? = [lightSheet "all-team" "instance_100" "api",
        lightSheet "all-plain" "instance_100" "api", lightSheet "data-team" "instance_101" "db"] := by
  obtain ⟨vary, first, others, report, w', log, made, -, -, hrun, htraced, h⟩ :=
    generate_tables .stumbling charted.declare charted.providers charted.views
      charted.effectiveOptions rfl rfl 0
  have hreport : (charted.generate .stumbling 0).1 = report := congrArg Prod.fst hrun
  have hlog : (charted.generate Workshop.stumbling.traced (0, [])).2.2 = log :=
    congrArg (fun r => r.2.2) htraced
  refine ⟨rfl, rfl, report, w', log, hrun, htraced, ?_, h.outputs, ?_, ?_, ?_⟩
  · rw [← hreport]
    decide +kernel
  · rw [← hreport]
    decide +kernel
  · rw [← hreport]
    decide +kernel
  · rw [← hlog]
    decide +kernel

end Document

end Schematic
