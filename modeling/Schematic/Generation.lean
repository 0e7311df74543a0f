import Schematic.Document.Declaration
import Schematic.Failure
import Schematic.Graphviz
import Schematic.Grid

/-! Generation: every system is drawn under every processor. Each such variant has a session of its
    own, in which the model is declared, the processor adds to it and the provider chooses a system.
    What fails is noted, and the other variants are made all the same.

    The images come from a workshop. What a workshop does is part of its state, so nothing is assumed
    about when its work fails. -/

namespace Schematic

/-! ### Variants -/

/-- Declares a topology, and gives what providers and processors need to find its parts. -/
abbrev Model (η : Type) := Session → η × Session

/-- Chooses a system. -/
abbrev Provider (η : Type) := Session → η → System × Session

/-- A view of a topology; only the one that changes nothing has no name. -/
structure Processor (η : Type) where
  name : Option String
  apply : Session → η → Session

/-- The processor that changes nothing. -/
def Processor.identity {η : Type} : Processor η := ⟨none, fun s _ => s⟩

/-- A system under a processor. -/
structure Variant where
  /-- The name that the provider gave the system. -/
  system : String
  processor : Option String
  /-- The system is drawn under this processor. -/
  drawn : Bool
  dot : String
  deriving DecidableEq

/-- The name of a variant and of its files. -/
def Variant.name (v : Variant) : String :=
  match v.processor with
  | some p => v.system ++ "-" ++ p
  | none => v.system

/-- The title of a drawing: of a single system only the processor is named, and nothing at all when
    that is single too. -/
def title (singleSystem singleProcessor : Bool) (system : String) (processor : Option String) :
    String :=
  if singleSystem then if singleProcessor then " " else processor.getD ""
  else
    match processor with
    | some p => system ++ "-" ++ p
    | none => system

section Variants

variable {η : Type}

/-- The variant of a provider and a processor, drawn from a fresh session. -/
def variant (model : Model η) (theme : Theme) (singleSystem singleProcessor : Bool)
    (provider : Provider η) (processor : Processor η) : Variant :=
  let (found, s) := model (.fresh theme)
  let s := processor.apply s found
  let (sys, s) := provider s found
  { system := sys.name
    processor := processor.name
    drawn := sys.rendersUnder processor.name
    dot := Dot.render s
      (sys.rename (title singleSystem singleProcessor sys.name processor.name)) }

/-- The processors to use, which are never none. -/
def processorsOrIdentity (processors : List (Processor η)) : List (Processor η) :=
  if processors.isEmpty then [.identity] else processors

/-- The variants of every provider, one row for each. -/
def variantRows (model : Model η) (theme : Theme) (providers : List (Provider η))
    (processors : List (Processor η)) : List (List Variant) :=
  let processors := processorsOrIdentity processors
  providers.map fun provider => processors.map
    (variant model theme (providers.length = 1) (processors.length = 1) provider)

end Variants

/-! ### Workshops -/

/-- Where images are made and files are written. Its state is of type `ω`, and programs that it has
    started are known as `κ`. -/
structure Workshop (ω κ : Type) where
  /-- The extension of the images. -/
  extension : String
  render : String → ω → Except Failure ByteArray × ω
  write : String → ByteArray → ω → Except Failure Unit × ω
  /-- Starts a program that makes a PNG file of a DOT file. -/
  start : String → (dotPath pngPath : String) → ω → Except SystemError κ × ω
  /-- Waits for a program to end. -/
  finish : κ → ω → Except SystemError Shell.Outcome × ω

/-- What came of a generation. -/
structure Report where
  /-- The files written. -/
  outputs : List String := []
  grid : Option Grid := none
  /-- How many variants were left out because their systems are not drawn under their processors. -/
  skipped : Nat := 0
  errors : List Failure := []

namespace Report

def success (r : Report) : Bool := r.errors.isEmpty

def fail (r : Report) (e : Failure) : Report := { r with errors := r.errors ++ [e] }

def addOutput (r : Report) (path : String) : Report := { r with outputs := r.outputs ++ [path] }

def skip (r : Report) : Report := { r with skipped := r.skipped + 1 }

end Report

section Modes

variable {ω κ : Type} (workshop : Workshop ω κ) (options : Options)

/-- The path of a file in the output directory. -/
def outputPath (name extension : String) : String :=
  Path.join options.outDir (name ++ "." ++ extension)

/-! ### Images in a table -/

/-- Makes the cell of a variant, which is empty when there is no image. -/
def makeCell (v : Variant) (r : Report) (w : ω) : String × Report × ω :=
  if v.drawn then
    match workshop.render v.dot w with
    | (.ok bytes, w) => (Text.lossy bytes, r, w)
    | (.error e, w) => ("", r.fail e, w)
  else ("", r.skip, w)

/-- Makes the cells of a row from left to right, each with the title of its column. -/
def makeCells (g : Grid) (r : Report) (w : ω) : List Variant → Grid × Report × ω
  | [] => (g, r, w)
  | v :: vs =>
    let (cell, r, w) := makeCell workshop v r w
    makeCells ((g.addColumn (v.processor.getD "")).addCell cell) r w vs

/-- Starts the row of variants, whose title is the name of the first one's system. -/
def startRow (g : Grid) : List Variant → Grid
  | [] => g
  | v :: _ => g.startRow v.system

/-- Makes the rows of the table. -/
def makeRows (g : Grid) (r : Report) (w : ω) : List (List Variant) → Grid × Report × ω
  | [] => (g, r, w)
  | vs :: rest =>
    let (g, r, w) := makeCells workshop (startRow g vs) r w vs
    makeRows g r w rest

/-- Makes the whole table. -/
def makeGrid (rows : List (List Variant)) (w : ω) : Report × ω :=
  let (g, r, w) := makeRows workshop (.start options.header) {} w rows
  ({ r with grid := some g }, w)

/-! ### Images in files -/

/-- Makes the image of a variant and writes it to its file. -/
def makeFile (v : Variant) (r : Report) (w : ω) : Report × ω :=
  if v.drawn then
    let path := outputPath options v.name workshop.extension
    match workshop.render v.dot w with
    | (.error e, w) => (r.fail e, w)
    | (.ok bytes, w) =>
      match workshop.write path bytes w with
      | (.ok (), w) => (r.addOutput path, w)
      | (.error e, w) => (r.fail e, w)
  else (r.skip, w)

def makeFiles (vs : List Variant) (w : ω) : Report × ω :=
  vs.foldl (fun (r, w) v => makeFile workshop options v r w) ({}, w)

/-! ### Images made in the background -/

/-- A program that is at work on the image of a path. -/
structure Pending (κ : Type) where
  pngPath : String
  child : κ

/-- Writes the DOT file of a variant and starts the program that makes its image. -/
def launch (v : Variant) (r : Report) (pending : List (Pending κ)) (w : ω) :
    Report × List (Pending κ) × ω :=
  if v.drawn then
    let dotPath := outputPath options v.name "dot"
    let pngPath := outputPath options v.name "png"
    match workshop.write dotPath v.dot.toUTF8 w with
    | (.error e, w) => (r.fail e, pending, w)
    | (.ok (), w) =>
      let r := r.addOutput dotPath
      match workshop.start options.dotProgram dotPath pngPath w with
      | (.ok child, w) => (r, pending ++ [⟨pngPath, child⟩], w)
      | (.error e, w) => (r.fail (.process options.dotProgram e), pending, w)
  else (r.skip, pending, w)

/-- Waits for a program and notes its image. -/
def collect (p : Pending κ) (r : Report) (w : ω) : Report × ω :=
  match workshop.finish p.child w with
  | (.error e, w) => (r.fail (.process options.dotProgram e), w)
  | (.ok o, w) =>
    if o.status.success then (r.addOutput p.pngPath, w)
    else (r.fail (Graphviz.complaint options.dotProgram o), w)

def makeNative (vs : List Variant) (w : ω) : Report × ω :=
  let (r, pending, w) :=
    vs.foldl (fun (r, pending, w) v => launch workshop options v r pending w) ({}, [], w)
  pending.foldl (fun (r, w) p => collect workshop options p r w) (r, w)

end Modes

/-! ### Generation -/

/-- The only extension that fits into a table. -/
def gridExtension : String := "svg"

/-- Draws every provider's system under every processor. A table needs images in SVG, and nothing is
    drawn for one without them. -/
def generate {η ω κ : Type} (model : Model η) (providers : List (Provider η))
    (processors : List (Processor η)) (options : Options) (workshop : Workshop ω κ) (w : ω) :
    Report × ω :=
  let rows := variantRows model options.themeInUse providers processors
  if options.grid then
    if workshop.extension = gridExtension then makeGrid workshop options rows w
    else ({ errors := [.gridFormat workshop.extension] }, w)
  else if options.native then makeNative workshop options rows.flatten w
  else makeFiles workshop options rows.flatten w

/-- The workshop that Graphviz works in. A program that it starts has done its work at once. -/
def Workshop.graphviz (program : String) (format : ImageFormat) :
    Workshop Machine Shell.Outcome where
  extension := format.name
  render := Graphviz.render program format
  write path bytes m := m.save path bytes
  start := Graphviz.convert
  finish o m := (.ok o, m)

namespace Document

/-- The provider of the system at `index`. -/
def provider (index : Nat) (entry : SystemEntry) : Provider Declared :=
  fun s d => entry.select s d index

def providers (doc : Document) : List (Provider Declared) := doc.systems.mapIdx provider

/-- The processor that adds the labels of an entry. -/
def processor (entry : ProcessorEntry) : Processor Declared :=
  ⟨some entry.name, fun s d => s.applyLabels (entry.labels d)⟩

def views (doc : Document) : List (Processor Declared) := doc.processors.map processor

/-- Draws every system of a document under every one of its processors. -/
def generate {ω κ : Type} (doc : Document) (workshop : Workshop ω κ) (w : ω) : Report × ω :=
  Schematic.generate doc.declare doc.providers doc.views doc.effectiveOptions workshop w

end Document

end Schematic
