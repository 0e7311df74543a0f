import Schematic.Codec
import Schematic.Document.Validation

/-! What can go wrong on the way from a document to its diagrams. -/

namespace Schematic

/-- Causes that lie in the system that a program runs on. -/
inductive SystemError where
  | notFound
  | notDirectory
  | isDirectory
  | alreadyExists
  | nameTooLong
  | permissionDenied
  | notExecutable
  | brokenPipe
  | nulInFileName
  | nulInArgument
  | notUtf8
  | unsupported
  deriving DecidableEq

/-- The number and the text that the system has for a cause. -/
def SystemError.numbered (text : String) (number : Nat) : String :=
  text ++ " (os error " ++ toString number ++ ")"

def SystemError.message : SystemError → String
  | .notFound => numbered "No such file or directory" 2
  | .notDirectory => numbered "Not a directory" 20
  | .isDirectory => numbered "Is a directory" 21
  | .alreadyExists => numbered "File exists" 17
  | .nameTooLong => numbered "File name too long" 36
  | .permissionDenied => numbered "Permission denied" 13
  | .notExecutable => numbered "Exec format error" 8
  | .brokenPipe => numbered "Broken pipe" 32
  | .nulInFileName => "file name contained an unexpected NUL byte"
  | .nulInArgument => "nul byte found in provided data"
  | .notUtf8 => "stream did not contain valid UTF-8"
  | .unsupported => numbered "Operation not supported" 95

inductive Failure where
  | io (path : String) (cause : SystemError)
  | process (program : String) (cause : SystemError)
  | graphviz (program status stderr : String)
  | gridFormat (extension : String)
  | document (fault : Fault)
  | json (misfit : Misfit)
  | yaml
  deriving DecidableEq

def Failure.message : Failure → String
  | .io path cause => "I/O error on " ++ path ++ ": " ++ cause.message
  | .process program cause => "failed to run " ++ ticked program ++ ": " ++ cause.message
  | .graphviz program status stderr => ticked program ++ " exited with " ++ status ++ ": " ++ stderr
  | .gridFormat extension => "grid cells embed SVG, but the renderer produces " ++ ticked extension
  | .document fault => "invalid topology document: " ++ fault.message
  | .json misfit => "topology JSON error: " ++ misfit.message?.getD "not a JSON text"
  | .yaml => "topology YAML error: not a YAML text of a document"

end Schematic
