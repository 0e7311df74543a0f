import Schematic.Machine

/-! What plain lines of scripts do, and what comes of a program that a machine runs. -/

namespace Schematic

namespace Shell

variable {s after : State} {slots opened : Slots}

/-! ### Lines of scripts -/

@[simp] theorem State.withdraw_nil (s before : State) : s.withdraw before [] = s := by
  have none : before.bindings.filter (fun _ => false) = [] :=
    List.filter_eq_nil_iff.mpr (by simp)
  have all : s.bindings.filter (fun _ => true) = s.bindings :=
    List.filter_eq_self.mpr (by simp)
  simp [State.withdraw, none, all]

/-- A line that is one command without assignments, run whatever was before it. -/
structure PlainLine where
  /-- Where the command begins. -/
  line : Nat
  words : List Word
  redirects : List Redirect
  deriving DecidableEq

def PlainLine.command (p : PlainLine) : Command := .simple p.line [] p.words p.redirects

def PlainLine.toLine (p : PlainLine) : Line := .mk .always false [p.command]

def Line.plain? : Line → Option PlainLine
  | .mk .always false [.simple line [] words redirects] => some ⟨line, words, redirects⟩
  | _ => none

theorem Line.eq_of_plain? {l : Line} {p : PlainLine} (h : l.plain? = some p) : l = p.toLine := by
  unfold plain? at h
  split at h
  · cases h
    rfl
  · cases h

/-- There is no equality test for lines, but there is one for what makes up plain ones. -/
theorem eq_of_plain? : ∀ {ls : List Line} {ps : List PlainLine}, ls.map Line.plain? = ps.map some →
    ls = ps.map PlainLine.toLine
  | [], [], _ => rfl
  | l :: ls, p :: ps, h => by
    obtain ⟨hl, hls⟩ := List.cons.inj h
    rw [Line.eq_of_plain? hl, eq_of_plain? hls, List.map_cons]

variable {p : PlainLine} {fuel : Nat}

/-- A command that the shell knows by itself. -/
theorem runCommand_builtin {name : String} {arguments : List String} (hname : name ≠ "exec")
    (hwords : expandAll (fuel + 1) slots p.words { s with line := p.line } =
      (name :: arguments, { s with line := p.line }))
    (hslots : redirectAll (fuel + 1) slots p.redirects { s with line := p.line } =
      ({ s with line := p.line }, some opened))
    (hruns : plainBuiltin? { s with line := p.line } opened name arguments = some after) :
    runCommand (fuel + 2) slots p.command s = after := by
  rw [PlainLine.command, runCommand]
  simp only [hwords, hslots]
  split
  case h_1 => contradiction
  case h_2 => simp_all
  case h_3 => simp_all
  case h_4 same =>
    cases same
    rw [assignAll, hruns]
    exact State.withdraw_nil ..

/-- A line in a script that goes on after failures. -/
theorem runLines_plain {ls : List Line} (hopen : s.ending = none) (hlax : s.strict = false)
    (hruns : runCommand fuel slots p.command s = after) (hlax' : after.strict = false) :
    runLines (fuel + 2) slots (p.toLine :: ls) s = runLines (fuel + 1) slots ls after := by
  have same : { s with strict := s.strict && !false } = s := by simp
  have ran : runPipeline (fuel + 1) slots [p.command] s = after := by rw [runPipeline, hruns]
  have kept : { after with strict := after.strict || s.strict } = after := by simp [hlax]
  rw [PlainLine.toLine, runLines.eq_def]
  dsimp only
  rw [if_neg (by simp [hopen])]
  simp only [if_true, same, ran, kept]
  simp [hlax']

/-- Nothing is run after the end of a script. -/
theorem runLines_ended {ls : List Line} (hended : s.ending.isSome) :
    runLines fuel slots ls s = s := by
  cases fuel with
  | zero => rw [runLines]
  | succ fuel =>
    cases ls with
    | nil => rw [runLines]
    | cons l ls =>
      obtain ⟨condition, negated, commands⟩ := l
      rw [runLines.eq_def]
      simp only [hended, if_true]

/-- What a program has come to that was given an input and ended in a state. -/
def outcomeIn (input : ByteArray) (s : State) : Outcome where
  taken := input.size - (s.readable (.stream 0)).size
  status := s.ending.getD (.exited s.status)
  stdout := s.readable (.stream 1)
  stderr := s.readable (.stream 2)

end Shell

/-! ### Programs -/

namespace Machine

open Shell (outcomeIn)

variable {m : Machine} {program : String} {arguments : List String} {input : ByteArray}

/-- The state in which a program is started. -/
def started (m : Machine) (input : ByteArray) : Shell.State where
  files := m.files
  home := m.home
  search := m.search
  streams := #[input, .empty, .empty]

theorem execute_of_resolves {tool : Tool} {words : List String}
    (clean : (program :: arguments).any (·.toList.contains '\x00') = false)
    (resolves : Shell.resolveProgram (m.started input) 5 program arguments = .ok (tool, words)) :
    let s := Shell.runTool Shell.patience {} tool words (m.started input)
    m.execute program arguments input = (.ok (outcomeIn input s), { m with files := s.files }) := by
  intro s
  have ran : Shell.execute m.files m.home m.search program arguments input =
      .ok (outcomeIn input s, s.files) := by
    rw [started] at resolves
    rw [Shell.execute]
    simp only [clean, resolves, bind, Except.bind, pure, Except.pure]
    rfl
  rw [execute, ran]

end Machine

end Schematic
