import Schematic.Document.Source
import Schematic.Machine

/-! Documents in files. -/

namespace Schematic

/-- Reads and checks the document in a file; the name of the file tells how it is written. -/
def Document.load (m : Machine) (path : String) : Except Failure Document :=
  match m.readText path with
  | .error e => .error (.io path e)
  | .ok text => Document.parse (SourceFormat.ofPath path) text

end Schematic
