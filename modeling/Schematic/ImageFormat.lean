import Schematic.Text.Blank

/-! The formats of images. -/

namespace Schematic

inductive ImageFormat where
  | svg
  | png
  | pdf
  deriving DecidableEq

namespace ImageFormat

/-- The format that is used when none is asked for. -/
def standard : ImageFormat := .svg

/-- The name of a format, which is also the extension of its files. -/
def name : ImageFormat → String
  | .svg => "svg"
  | .png => "png"
  | .pdf => "pdf"

/-- The format of that name, whatever the case of its letters and the blanks around it. -/
def ofName? (s : String) : Option ImageFormat :=
  match Text.folded s with
  | "svg" => some .svg
  | "png" => some .png
  | "pdf" => some .pdf
  | _ => none

end ImageFormat

end Schematic
