import Schematic.ImageFormat
import Schematic.Machine

/-! Graphviz makes images of DOT texts. It is a program of its own: it reads the text from its input
    or from a file, and says what went wrong on its errors. -/

namespace Schematic.Graphviz

/-- The name under which Graphviz is called when no other is given. -/
def standardProgram : String := "dot"

/-- The complaint of a program that did not succeed. -/
def complaint (program : String) (o : Shell.Outcome) : Failure :=
  .graphviz program o.status.text (Text.trim (Text.lossy o.stderr))

/-- What is made of a program that was given a text: that its input could not be written counts for more
    than how it ended. -/
def image (program : String) (fed : Fed) : Except Failure ByteArray :=
  match fed.written, fed.ended with
  | .error e, _ => .error (.process program e)
  | .ok (), .error e => .error (.process program e)
  | .ok (), .ok o => if o.status.success then .ok o.stdout else .error (complaint program o)

/-- Gives a DOT text to a program, in some way of running programs, and takes the image it writes. -/
def renderBy {ω : Type} (feed : String → List String → ByteArray → ω → Except SystemError Fed × ω)
    (program : String) (format : ImageFormat) (dot : String) (w : ω) :
    Except Failure ByteArray × ω :=
  match feed program ["-T" ++ format.name] dot.toUTF8 w with
  | (.ok fed, w) => (image program fed, w)
  | (.error e, w) => (.error (.process program e), w)

/-- Gives a DOT text to a program on a machine. -/
def render (program : String) (format : ImageFormat) (dot : String) (m : Machine) :
    Except Failure ByteArray × Machine :=
  renderBy Machine.feed program format dot m

/-- Has a program make a PNG file of a DOT file. -/
def convert (program dotPath pngPath : String) (m : Machine) :
    Except SystemError Shell.Outcome × Machine :=
  m.execute program ["-Tpng", "-o", pngPath, dotPath] .empty

end Schematic.Graphviz
