import Schematic.Generation

/-! What a generation asks of its workshop. A workshop can keep a list of the texts it is given without
    doing anything else differently; after a generation this list has the texts of the variants that
    are drawn, row by row, whatever the workshop makes of them. -/

namespace Schematic

variable {ω κ : Type}

/-- The workshop, with a list of all texts that it was to make images of. -/
def Workshop.recorded (workshop : Workshop ω κ) : Workshop (ω × List String) κ where
  extension := workshop.extension
  render dot w := ((workshop.render dot w.1).1, (workshop.render dot w.1).2, w.2 ++ [dot])
  write path bytes w := ((workshop.write path bytes w.1).1, (workshop.write path bytes w.1).2, w.2)
  start program dotPath pngPath w :=
    ((workshop.start program dotPath pngPath w.1).1, (workshop.start program dotPath pngPath w.1).2,
      w.2)
  finish child w := ((workshop.finish child w.1).1, (workshop.finish child w.1).2, w.2)

/-- The texts of the variants that are drawn. -/
def drawnTexts (vs : List Variant) : List String := (vs.filter (·.drawn)).map (·.dot)

theorem drawnTexts_cons (v : Variant) (vs : List Variant) :
    drawnTexts (v :: vs) = (if v.drawn then [v.dot] else []) ++ drawnTexts vs := by
  rw [drawnTexts, List.filter_cons]
  by_cases h : v.drawn
  · rw [if_pos h, if_pos h]; rfl
  · rw [if_neg h, if_neg h]; rfl

theorem drawnTexts_append (vs vs' : List Variant) :
    drawnTexts (vs ++ vs') = drawnTexts vs ++ drawnTexts vs' := by
  rw [drawnTexts, List.filter_append, List.map_append]
  rfl

variable (workshop : Workshop ω κ) (options : Options)

/-! ### Images in a table -/

theorem makeCell_recorded (v : Variant) (r : Report) (w : ω) (log : List String) :
    makeCell workshop.recorded v r (w, log) =
      ((makeCell workshop v r w).1, (makeCell workshop v r w).2.1, (makeCell workshop v r w).2.2,
        log ++ if v.drawn then [v.dot] else []) := by
  rw [makeCell, makeCell]
  by_cases h : v.drawn
  · simp only [if_pos h, Workshop.recorded]
    rcases workshop.render v.dot w with ⟨_ | _, w⟩
    · rfl
    · rfl
  · simp only [if_neg h, List.append_nil]

theorem makeCells_recorded : ∀ (vs : List Variant) (g : Grid) (r : Report) (w : ω)
    (log : List String), makeCells workshop.recorded g r (w, log) vs =
      ((makeCells workshop g r w vs).1, (makeCells workshop g r w vs).2.1,
        (makeCells workshop g r w vs).2.2, log ++ drawnTexts vs)
  | [], _, _, _, _ => by simp [makeCells, drawnTexts]
  | v :: vs, g, r, w, log => by
    simp only [makeCells, makeCell_recorded, makeCells_recorded vs, drawnTexts_cons,
      List.append_assoc]

theorem makeRows_recorded : ∀ (rows : List (List Variant)) (g : Grid) (r : Report) (w : ω)
    (log : List String), makeRows workshop.recorded g r (w, log) rows =
      ((makeRows workshop g r w rows).1, (makeRows workshop g r w rows).2.1,
        (makeRows workshop g r w rows).2.2, log ++ drawnTexts rows.flatten)
  | [], _, _, _, _ => by simp [makeRows, drawnTexts]
  | vs :: rest, g, r, w, log => by
    simp only [makeRows, makeCells_recorded, makeRows_recorded rest, List.flatten_cons,
      drawnTexts_append, List.append_assoc]

theorem makeGrid_recorded (rows : List (List Variant)) (w : ω) (log : List String) :
    makeGrid workshop.recorded options rows (w, log) =
      ((makeGrid workshop options rows w).1, (makeGrid workshop options rows w).2,
        log ++ drawnTexts rows.flatten) := by
  simp only [makeGrid, makeRows_recorded]

/-! ### Images in files -/

theorem makeFile_recorded (v : Variant) (r : Report) (w : ω) (log : List String) :
    makeFile workshop.recorded options v r (w, log) =
      ((makeFile workshop options v r w).1, (makeFile workshop options v r w).2,
        log ++ if v.drawn then [v.dot] else []) := by
  rw [makeFile, makeFile]
  by_cases h : v.drawn
  · simp only [if_pos h, Workshop.recorded]
    rcases workshop.render v.dot w with ⟨_ | bytes, w⟩
    · rfl
    · simp only
      rcases workshop.write (outputPath options v.name workshop.extension) bytes w with ⟨_ | _, w⟩
      · rfl
      · rfl
  · simp only [if_neg h, List.append_nil]

theorem foldl_makeFile_recorded : ∀ (vs : List Variant) (r : Report) (w : ω) (log : List String),
    vs.foldl (fun (r, w) v => makeFile workshop.recorded options v r w) (r, w, log) =
      ((vs.foldl (fun (r, w) v => makeFile workshop options v r w) (r, w)).1,
        (vs.foldl (fun (r, w) v => makeFile workshop options v r w) (r, w)).2, log ++ drawnTexts vs)
  | [], _, _, _ => by simp [drawnTexts]
  | v :: vs, r, w, log => by
    simp only [List.foldl_cons, makeFile_recorded]
    rw [foldl_makeFile_recorded vs, drawnTexts_cons, List.append_assoc]

theorem makeFiles_recorded (vs : List Variant) (w : ω) (log : List String) :
    makeFiles workshop.recorded options vs (w, log) =
      ((makeFiles workshop options vs w).1, (makeFiles workshop options vs w).2,
        log ++ drawnTexts vs) :=
  foldl_makeFile_recorded workshop options vs {} w log

/-! ### Generation -/

/-- Outside native mode a generation with SVG images asks for the variants that are drawn, in order,
    and what comes of it is the same whether the workshop keeps a list or not. -/
theorem generate_recorded {η : Type} (model : Model η) (providers : List (Provider η))
    (processors : List (Processor η)) (hnative : options.native = false)
    (hsvg : workshop.extension = gridExtension) (w : ω) (log : List String) :
    generate model providers processors options workshop.recorded (w, log) =
      ((generate model providers processors options workshop w).1,
        (generate model providers processors options workshop w).2,
        log ++ drawnTexts
          (variantRows model options.themeInUse providers processors).flatten) := by
  have hsvg' : workshop.recorded.extension = gridExtension := hsvg
  simp only [generate, hnative, if_pos hsvg, if_pos hsvg', makeGrid_recorded, makeFiles_recorded]
  by_cases h : options.grid
  · simp only [if_pos h]
  · simp only [if_neg h, Bool.false_eq_true, if_false]

end Schematic
