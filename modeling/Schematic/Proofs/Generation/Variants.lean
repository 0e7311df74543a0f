import Schematic.Generation

/-! What is drawn for a provider and a processor. Nothing that was declared, noted or numbered for one
    pair can be seen in the drawing for another: the model is declared once more for each pair, in a
    session where nothing is declared yet, and the drawing is that of the system chosen there, with a
    title that tells it apart from the others. -/

namespace Schematic

variable {η : Type}

/-- The processors that are used. Where there are none, one without a name changes nothing. -/
def usedProcessors : List (Processor η) → List (Processor η)
  | [] => [{ name := none, apply := fun s _ => s }]
  | p :: ps => p :: ps

/-- The title over a drawing, where there are so many systems and processors. -/
def shownTitle (systems processors : Nat) (system : String) : Option String → String
  | none => if systems = 1 then if processors ≤ 1 then " " else "" else system
  | some p => if systems = 1 then if processors ≤ 1 then " " else p else system ++ "-" ++ p

/-- A variant is made of the model alone: in a session of its own the model is declared first, then the
    processor adds to it, then the provider chooses a system. -/
structure MadeAlone (model : Model η) (theme : Theme) (title : String → Option String → String)
    (provider : Provider η) (processor : Processor η) (v : Variant) (found : η)
    (declared chosen : Session) (sys : System) : Prop where
  declares : model (.fresh theme) = (found, declared)
  chooses : provider (processor.apply declared found) found = (sys, chosen)
  system : v.system = sys.name
  label : v.processor = processor.name
  /-- A system that is for some processors only is not drawn under any other. -/
  drawn : v.drawn = true ↔ ∀ names ∈ sys.only, ∃ name ∈ processor.name, name ∈ names
  dot : v.dot = Dot.render chosen { sys with name := title sys.name processor.name }

/-- A variant is what it is to be in a generation with options, for all providers and processors. -/
def DrawnAlone (model : Model η) (providers : List (Provider η)) (processors : List (Processor η))
    (options : Options) (provider : Provider η) (processor : Processor η) (v : Variant) : Prop :=
  ∃ found declared chosen sys,
    MadeAlone model (options.theme.getD (if options.grid then .light else .dark))
      (shownTitle providers.length processors.length) provider processor v found declared chosen sys

theorem processorsOrIdentity_eq (processors : List (Processor η)) :
    processorsOrIdentity processors = usedProcessors processors := by
  cases processors <;> rfl

theorem length_usedProcessors (processors : List (Processor η)) :
    (usedProcessors processors).length = 1 ↔ processors.length ≤ 1 := by
  cases processors <;> simp [usedProcessors]

theorem title_eq_shown (systems : Nat) (processors : List (Processor η)) (system : String)
    (p : Option String) :
    title (systems = 1) ((usedProcessors processors).length = 1) system p =
      shownTitle systems processors.length system p := by
  cases p <;> simp only [title, shownTitle, decide_eq_true_eq, length_usedProcessors] <;> rfl

theorem rendersUnder_iff (sys : System) (p : Option String) :
    sys.rendersUnder p = true ↔ ∀ names ∈ sys.only, ∃ name ∈ p, name ∈ names := by
  cases honly : sys.only <;> cases p <;> simp [System.rendersUnder, honly]

section Generation

variable (model : Model η) (providers : List (Provider η)) (processors : List (Processor η))
  (options : Options)

/-- The variant of a provider and a processor in a generation. -/
def variantOf (provider : Provider η) (processor : Processor η) : Variant :=
  variant model options.themeInUse (providers.length = 1) ((usedProcessors processors).length = 1)
    provider processor

theorem variantOf_alone (provider : Provider η) (processor : Processor η) :
    DrawnAlone model providers processors options provider processor
      (variantOf model providers processors options provider processor) := by
  refine ⟨_, _, _, _, rfl, rfl, rfl, rfl, rendersUnder_iff _ _, ?_⟩
  rw [← title_eq_shown]
  rfl

/-- The rows of a generation, with each variant by itself. -/
theorem variantRows_eq : variantRows model options.themeInUse providers processors =
    providers.map fun provider => (usedProcessors processors).map
      (variantOf model providers processors options provider) := by
  rw [variantRows, processorsOrIdentity_eq]
  rfl

end Generation

end Schematic
