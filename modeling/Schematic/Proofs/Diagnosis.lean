import Mathlib.Data.List.TakeDrop
import Schematic.Graphviz
import Schematic.Proofs.Shell.Running

/-! What is said about a program that was given a DOT text. The text is written to the program while that
    runs, so a program may end before all of it is written. If it was written, a program that failed is
    reported with its status and its own words; else the report is about the writing. -/

namespace Schematic

namespace Graphviz

open Shell (Outcome)

/-! ### The diagnosis -/

/-- What is to be said about a program that was started and given its input. -/
structure Diagnosed (program : String) (fed : Fed) (answer : Except Failure ByteArray) : Prop where
  /-- A program that failed speaks for itself if all of its input could be written. -/
  failed : ∀ o, fed.written = .ok () → fed.ended = .ok o → o.status.success = false →
    answer = .error (.graphviz program o.status.text (Text.trim (Text.lossy o.stderr)))
  drawn : ∀ o, fed.written = .ok () → fed.ended = .ok o → o.status.success = true →
    answer = .ok o.stdout
  lost : ∀ e, fed.written = .ok () → fed.ended = .error e → answer = .error (.process program e)
  /-- An input that could not be written hides how the program ended, and all that it said. -/
  cut : ∀ e, fed.written = .error e → answer = .error (.process program e)
  /-- So a program that failed is heard just when all of its input could be written. -/
  heard : (∃ status words, answer = .error (.graphviz program status words)) ↔
    fed.written = .ok () ∧ ∃ o, fed.ended = .ok o ∧ o.status.success = false

section Images

variable (program : String) {e : SystemError} {o : Outcome} {ended : Except SystemError Outcome}

@[simp] theorem image_cut : image program ⟨.error e, ended⟩ = .error (.process program e) := rfl

@[simp] theorem image_lost : image program ⟨.ok (), .error e⟩ = .error (.process program e) := rfl

theorem image_failed (h : o.status.success = false) :
    image program ⟨.ok (), .ok o⟩ =
      .error (.graphviz program o.status.text (Text.trim (Text.lossy o.stderr))) := by
  simp [image, complaint, h]

theorem image_drawn (h : o.status.success = true) :
    image program ⟨.ok (), .ok o⟩ = .ok o.stdout := by
  simp [image, h]

/-- The words of a program come into the answer in one way only. -/
theorem image_heard_iff (fed : Fed) :
    (∃ status words, image program fed = .error (.graphviz program status words)) ↔
      fed.written = .ok () ∧ ∃ o, fed.ended = .ok o ∧ o.status.success = false := by
  rcases fed with ⟨e | written, ended⟩
  · simp
  obtain rfl : written = () := rfl
  rcases ended with e | o
  · simp
  cases success : o.status.success with
  | false => simp [image_failed program success, success]
  | true => simp [image_drawn program success, success]

theorem image_diagnosed (fed : Fed) : Diagnosed program fed (image program fed) where
  failed o written ended failed := by
    obtain ⟨_, _⟩ := fed
    subst written ended
    exact image_failed program failed
  drawn o written ended succeeded := by
    obtain ⟨_, _⟩ := fed
    subst written ended
    exact image_drawn program succeeded
  lost e written ended := by
    obtain ⟨_, _⟩ := fed
    subst written ended
    exact image_lost program
  cut e written := by
    obtain ⟨_, _⟩ := fed
    subst written
    exact image_cut program
  heard := image_heard_iff program fed

end Images

section Refusal

open Shell Machine

/-- A script that complains without reading anything. -/
def refusal : String := "#!/bin/sh\necho 'syntax error' >&2\nexit 1\n"

/-- A machine where `./dot.sh` refuses every text. -/
def refusing : Machine where
  files := ⟨[(["bin"], .directory), (["bin", "sh"], .tool .shell), (["work"], .directory),
    (["work", "dot.sh"], .file refusal.toUTF8 true)]⟩
  home := ["work"]
  search := []

/-- What always comes of it. -/
def refused : Outcome where
  taken := 0
  status := .exited 1
  stdout := .empty
  stderr := "syntax error\n".toUTF8

/-- The second line of the script, which says something to the errors. -/
def protest : PlainLine where
  line := 2
  words := [[.text "e" false, .text "c" false, .text "h" false, .text "o" false],
    [.text "syntax error" true]]
  redirects := [⟨1, .copy, [.text "2" false]⟩]

/-- The third line, which ends it. -/
def departure : PlainLine where
  line := 3
  words := [[.text "e" false, .text "x" false, .text "i" false, .text "t" false], [.text "1" false]]
  redirects := []

theorem readScript_refusal : readScript refusal = some [protest.toLine, departure.toLine] := by
  have plain : (readScript refusal).map (·.map Line.plain?) = some ([protest, departure].map some) := by
    decide +kernel
  obtain ⟨ls, read, hls⟩ := Option.map_eq_some_iff.mp plain
  rw [read, eq_of_plain? hls]
  rfl

theorem runCommand_protest (fuel : Nat) (s : State) :
    runCommand (fuel + 20) {} protest.command s =
      { s with
        line := 2
        status := 0
        streams := s.streams.modify 2 (· ++ "syntax error\n".toUTF8) } := by
  have words : expandAll (fuel + 19) {} protest.words { s with line := 2 } =
      (["echo", "syntax error"], { s with line := 2 }) := rfl
  have slots : redirectAll (fuel + 19) {} protest.redirects { s with line := 2 } =
      ({ s with line := 2 }, some { output := .stream 2 }) := rfl
  have said : echo ["syntax error"] = "syntax error\n".toUTF8 := by decide +kernel
  refine runCommand_builtin (by decide) words slots ?_
  simp [plainBuiltin?, said, State.write, State.withStatus, protest]

theorem runCommand_departure (fuel : Nat) (s : State) :
    runCommand (fuel + 20) {} departure.command s =
      { s with line := 3, status := 1, ending := some (.exited 1) } := by
  have words : expandAll (fuel + 19) {} departure.words { s with line := 3 } =
      (["exit", "1"], { s with line := 3 }) := rfl
  have code : (numberOf "1" % 256).toNat = 1 := by decide +kernel
  refine runCommand_builtin (by decide) words rfl ?_
  simp [plainBuiltin?, code, departure]

theorem runSource_refusal (fuel : Nat) {s : State} (hopen : s.ending = none)
    (hlax : s.strict = false) :
    runSource (fuel + 30) {} refusal s =
      { s with
        line := 3
        status := 1
        ending := some (.exited 1)
        streams := s.streams.modify 2 (· ++ "syntax error\n".toUTF8) } := by
  rw [runSource, readScript_refusal]
  dsimp only
  rw [runLines_plain hopen hlax (runCommand_protest (fuel + 7) s) hlax]
  refine (runLines_plain ?_ ?_ (runCommand_departure (fuel + 6) _) ?_).trans (runLines_ended rfl)
  · exact hopen
  · exact hlax
  · exact hlax

theorem resolveProgram_refusing (input : ByteArray) :
    resolveProgram (refusing.started input) 5 "./dot.sh" ["-Tsvg"] =
      .ok (.shell, ["./dot.sh", "-Tsvg"]) := by
  have script : findProgram (refusing.started input) "./dot.sh" =
      .ok ("./dot.sh", .file refusal.toUTF8 true) := rfl
  have shell : findProgram (refusing.started input) "/bin/sh" = .ok ("/bin/sh", .tool .shell) := rfl
  have first : interpreter? refusal.toUTF8 = some ("/bin/sh", []) := by decide +kernel
  rw [resolveProgram, script]
  simp only [bind, Except.bind, first]
  rw [if_pos (by decide +kernel), resolveProgram, shell]
  rfl

theorem runTool_refusing (input : ByteArray) :
    runTool patience {} .shell ["./dot.sh", "-Tsvg"] (refusing.started input) =
      { refusing.started input with
        name := "./dot.sh"
        arguments := ["-Tsvg"]
        line := 3
        status := 1
        ending := some (.exited 1)
        streams := #[input, .empty, "syntax error\n".toUTF8] } := by
  have file : refusing.files.read refusing.home "./dot.sh" = .ok refusal.toByteArray := rfl
  have text : Text.lossy refusal.toByteArray = refusal := rfl
  rw [show patience = 99999 + 1 from rfl, runTool]
  simp [started, List.span_eq_takeWhile_dropWhile, file, text]
  rw [show 99999 = 99969 + 30 from rfl, runSource_refusal 99969 rfl rfl]
  rfl

theorem execute_refusing (input : ByteArray) :
    refusing.execute "./dot.sh" ["-Tsvg"] input = (.ok refused, refusing) := by
  rw [execute_of_resolves (by decide +kernel) (resolveProgram_refusing input), runTool_refusing]
  simp [outcomeIn, State.readable, refused, started]

/-- The script reads nothing, so what becomes of its input is up to the pipe. -/
theorem feed_refusing (input : ByteArray) :
    refusing.feed "./dot.sh" ["-T" ++ ImageFormat.svg.name] input =
      (.ok ⟨roomyPipe input.size 0, .ok refused⟩, refusing) := by
  have ran : refusing.execute "./dot.sh" ["-T" ++ ImageFormat.svg.name] input =
      (.ok refused, refusing) := execute_refusing input
  rw [feed, ran]
  rfl

theorem size_join_replicate (n : Nat) (t : String) :
    (String.join (List.replicate n t)).toUTF8.size = n * t.toUTF8.size := by
  induction n with
  | zero => simp
  | succ n ih =>
    simp only [String.toUTF8, String.size_toByteArray] at ih ⊢
    rw [List.replicate_succ, String.join_cons, String.utf8ByteSize_append, ih, Nat.succ_mul,
      Nat.add_comm]

/-- A text of 320000 bytes. -/
def lengthy : String := String.join (List.replicate 20000 "0123456789abcdef")

end Refusal

end Graphviz

end Schematic
