/-! How a program ended. -/

namespace Schematic

inductive Status where
  | exited (code : Nat)
  | killed (signal : Nat)
  deriving DecidableEq

namespace Status

/-- The program did what it was asked to do. -/
def success (s : Status) : Bool := s = .exited 0

/-- The names of the signals that end programs. -/
def signalNames : List (Nat × String) :=
  [(1, "HUP"), (2, "INT"), (3, "QUIT"), (4, "ILL"), (5, "TRAP"), (6, "ABRT"), (7, "BUS"), (8, "FPE"),
   (9, "KILL"), (10, "USR1"), (11, "SEGV"), (12, "USR2"), (13, "PIPE"), (14, "ALRM"), (15, "TERM")]

/-- The number of a signal, given by name, with or without `SIG`, or by number. -/
def signal? (s : String) : Option Nat :=
  let name := match s.toList with
    | 'S' :: 'I' :: 'G' :: r => String.ofList r
    | _ => s
  match s.toNat? with
  | some n => some n
  | none => (signalNames.find? (·.2 = name)).map (·.1)

def text : Status → String
  | .exited code => "exit status: " ++ toString code
  | .killed signal =>
    "signal: " ++ toString signal
      ++ (match signalNames.lookup signal with
          | some name => " (SIG" ++ name ++ ")"
          | none => "")

end Status

end Schematic
