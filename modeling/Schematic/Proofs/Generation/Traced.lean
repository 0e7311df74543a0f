import Mathlib.Data.List.Induction
import Schematic.Generation

/-! What a workshop was asked for, and what it answered. A workshop can keep a list of that without
    doing anything else differently: a generation only sees what its workshop answers, and so its report
    is the same for all workshops that answer alike. -/

namespace Schematic

variable {ω ω' κ : Type}

/-- A request to a workshop, with its answer. -/
inductive Event (κ : Type) where
  | rendered (dot : String) (answer : Except Failure ByteArray)
  | wrote (path : String) (bytes : ByteArray) (answer : Except Failure Unit)
  | started (program dotPath pngPath : String) (answer : Except SystemError κ)
  | finished (child : κ) (answer : Except SystemError Shell.Outcome)

/-- The text that an image was asked for. -/
def Event.text? : Event κ → Option String
  | .rendered dot _ => some dot
  | _ => none

/-- The workshop, with a list of all requests and their answers. -/
def Workshop.traced (workshop : Workshop ω κ) : Workshop (ω × List (Event κ)) κ where
  extension := workshop.extension
  render dot w := ((workshop.render dot w.1).1, (workshop.render dot w.1).2,
    w.2 ++ [.rendered dot (workshop.render dot w.1).1])
  write path bytes w := ((workshop.write path bytes w.1).1, (workshop.write path bytes w.1).2,
    w.2 ++ [.wrote path bytes (workshop.write path bytes w.1).1])
  start program dotPath pngPath w :=
    ((workshop.start program dotPath pngPath w.1).1, (workshop.start program dotPath pngPath w.1).2,
      w.2 ++ [.started program dotPath pngPath (workshop.start program dotPath pngPath w.1).1])
  finish child w := ((workshop.finish child w.1).1, (workshop.finish child w.1).2,
    w.2 ++ [.finished child (workshop.finish child w.1).1])

/-- A workshop answers like another one, whose state is a part of its own. -/
structure Workshop.Follows (part : ω' → ω) (workshop' : Workshop ω' κ) (workshop : Workshop ω κ) :
    Prop where
  extension : workshop'.extension = workshop.extension
  render : ∀ dot w, (workshop'.render dot w).map id part = workshop.render dot (part w)
  write : ∀ path bytes w,
    (workshop'.write path bytes w).map id part = workshop.write path bytes (part w)
  start : ∀ program dotPath pngPath w,
    (workshop'.start program dotPath pngPath w).map id part =
      workshop.start program dotPath pngPath (part w)
  finish : ∀ child w, (workshop'.finish child w).map id part = workshop.finish child (part w)

theorem Workshop.traced_follows (workshop : Workshop ω κ) :
    Workshop.Follows Prod.fst workshop.traced workshop where
  extension := rfl
  render _ _ := rfl
  write _ _ _ := rfl
  start _ _ _ _ := rfl
  finish _ _ := rfl

/-! ### The two loops of native mode -/

section Loops

variable (workshop : Workshop ω κ) (options : Options)

/-- The first loop of native mode, which starts the programs. -/
def launchAll (vs : List Variant) (w : ω) : Report × List (Pending κ) × ω :=
  vs.foldl (fun (r, pending, w) v => launch workshop options v r pending w) ({}, [], w)

/-- The second loop of native mode, which waits for them. -/
def collectAll (pending : List (Pending κ)) (r : Report) (w : ω) : Report × ω :=
  pending.foldl (fun (r, w) p => collect workshop options p r w) (r, w)

theorem makeNative_eq (vs : List Variant) (w : ω) : makeNative workshop options vs w =
    collectAll workshop options (launchAll workshop options vs w).2.1
      (launchAll workshop options vs w).1 (launchAll workshop options vs w).2.2 := rfl

theorem launchAll_concat (vs : List Variant) (v : Variant) (w : ω) :
    launchAll workshop options (vs ++ [v]) w =
      launch workshop options v (launchAll workshop options vs w).1
        (launchAll workshop options vs w).2.1 (launchAll workshop options vs w).2.2 := by
  rw [launchAll, List.foldl_append]
  rfl

theorem collectAll_cons (p : Pending κ) (pending : List (Pending κ)) (r : Report) (w : ω) :
    collectAll workshop options (p :: pending) r w =
      collectAll workshop options pending (collect workshop options p r w).1
        (collect workshop options p r w).2 := rfl

end Loops

section Follows

variable {part : ω' → ω} {workshop' : Workshop ω' κ} {workshop : Workshop ω κ} (options : Options)

/-! ### Images in a table -/

theorem makeCell_follows (h : Workshop.Follows part workshop' workshop) (v : Variant) (r : Report)
    (w : ω') : (makeCell workshop' v r w).map id (Prod.map id part) =
      makeCell workshop v r (part w) := by
  rw [makeCell, makeCell]
  by_cases hdrawn : v.drawn
  · rw [if_pos hdrawn, if_pos hdrawn, ← h.render]
    rcases workshop'.render v.dot w with ⟨_ | _, w⟩
    · rfl
    · rfl
  · rw [if_neg hdrawn, if_neg hdrawn]
    rfl

theorem makeCells_follows (h : Workshop.Follows part workshop' workshop) :
    ∀ (vs : List Variant) (g : Grid) (r : Report) (w : ω'),
    (makeCells workshop' g r w vs).map id (Prod.map id part) = makeCells workshop g r (part w) vs
  | [], _, _, _ => rfl
  | v :: vs, g, r, w => by
    rw [makeCells, makeCells, ← makeCell_follows h]
    exact makeCells_follows h vs _ _ _

theorem makeRows_follows (h : Workshop.Follows part workshop' workshop) :
    ∀ (rows : List (List Variant)) (g : Grid) (r : Report) (w : ω'),
    (makeRows workshop' g r w rows).map id (Prod.map id part) = makeRows workshop g r (part w) rows
  | [], _, _, _ => rfl
  | vs :: rest, g, r, w => by
    rw [makeRows, makeRows, ← makeCells_follows h]
    exact makeRows_follows h rest _ _ _

theorem makeGrid_follows (h : Workshop.Follows part workshop' workshop) (rows : List (List Variant))
    (w : ω') : (makeGrid workshop' options rows w).map id part =
      makeGrid workshop options rows (part w) := by
  simp only [makeGrid]
  rw [← makeRows_follows h]
  rfl

/-! ### Images in files -/

theorem makeFile_follows (h : Workshop.Follows part workshop' workshop) (v : Variant) (r : Report)
    (w : ω') : (makeFile workshop' options v r w).map id part =
      makeFile workshop options v r (part w) := by
  rw [makeFile, makeFile]
  by_cases hdrawn : v.drawn
  · simp only [if_pos hdrawn, h.extension, ← h.render]
    rcases workshop'.render v.dot w with ⟨_ | bytes, w⟩
    · rfl
    · simp only [Prod.map_apply, id, ← h.write]
      rcases workshop'.write (outputPath options v.name workshop.extension) bytes w with ⟨_ | _, w⟩
      · rfl
      · rfl
  · rw [if_neg hdrawn, if_neg hdrawn]
    rfl

theorem makeFiles_follows (h : Workshop.Follows part workshop' workshop) (vs : List Variant)
    (w : ω') : (makeFiles workshop' options vs w).map id part =
      makeFiles workshop options vs (part w) :=
  (List.foldl_hom (Prod.map id part) fun rw v =>
    (makeFile_follows options h v rw.1 rw.2).symm).symm

/-! ### Images made in the background -/

theorem launch_follows (h : Workshop.Follows part workshop' workshop) (v : Variant) (r : Report)
    (pending : List (Pending κ)) (w : ω') :
    (launch workshop' options v r pending w).map id (Prod.map id part) =
      launch workshop options v r pending (part w) := by
  rw [launch, launch]
  by_cases hdrawn : v.drawn
  · simp only [if_pos hdrawn, ← h.write]
    rcases workshop'.write (outputPath options v.name "dot") v.dot.toUTF8 w with ⟨_ | _, w⟩
    · rfl
    · simp only [Prod.map_apply, id, ← h.start]
      rcases workshop'.start options.dotProgram (outputPath options v.name "dot")
        (outputPath options v.name "png") w with ⟨_ | _, w⟩
      · rfl
      · rfl
  · rw [if_neg hdrawn, if_neg hdrawn]
    rfl

theorem collect_follows (h : Workshop.Follows part workshop' workshop) (p : Pending κ) (r : Report)
    (w : ω') : (collect workshop' options p r w).map id part =
      collect workshop options p r (part w) := by
  rw [collect, collect, ← h.finish]
  rcases workshop'.finish p.child w with ⟨_ | o, w⟩
  · rfl
  · simp only [Prod.map_apply, id]
    by_cases hsuccess : o.status.success
    · rw [if_pos hsuccess, if_pos hsuccess]
      rfl
    · rw [if_neg hsuccess, if_neg hsuccess]
      rfl

theorem launchAll_follows (h : Workshop.Follows part workshop' workshop) (vs : List Variant)
    (w : ω') : (launchAll workshop' options vs w).map id (Prod.map id part) =
      launchAll workshop options vs (part w) := by
  induction vs using List.reverseRecOn with
  | nil => rfl
  | append_singleton vs v ih =>
    rw [launchAll_concat, launchAll_concat, ← ih, launch_follows options h]
    rfl

theorem collectAll_follows (h : Workshop.Follows part workshop' workshop) :
    ∀ (pending : List (Pending κ)) (r : Report) (w : ω'),
    (collectAll workshop' options pending r w).map id part =
      collectAll workshop options pending r (part w)
  | [], _, _ => rfl
  | p :: pending, r, w => by
    rw [collectAll_cons, collectAll_cons, collectAll_follows h pending, ← collect_follows options h]
    rfl

theorem makeNative_follows (h : Workshop.Follows part workshop' workshop) (vs : List Variant)
    (w : ω') : (makeNative workshop' options vs w).map id part =
      makeNative workshop options vs (part w) := by
  rw [makeNative_eq, makeNative_eq, collectAll_follows options h, ← launchAll_follows options h]
  rfl

/-! ### Generation -/

/-- A generation comes to the same in workshops that answer alike. -/
theorem generate_follows (h : Workshop.Follows part workshop' workshop) {η : Type} (model : Model η)
    (providers : List (Provider η)) (processors : List (Processor η)) (w : ω') :
    (generate model providers processors options workshop' w).map id part =
      generate model providers processors options workshop (part w) := by
  simp only [generate, h.extension]
  by_cases hgrid : options.grid
  · simp only [if_pos hgrid]
    by_cases hsvg : workshop.extension = gridExtension
    · simp only [if_pos hsvg]
      exact makeGrid_follows options h _ w
    · simp only [if_neg hsvg]
      rfl
  · simp only [if_neg hgrid]
    by_cases hnative : options.native
    · simp only [if_pos hnative]
      exact makeNative_follows options h _ w
    · simp only [if_neg hnative]
      exact makeFiles_follows options h _ w

end Follows

end Schematic
