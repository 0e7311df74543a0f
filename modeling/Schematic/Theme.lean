import Schematic.Text.Blank

/-! Colour themes. A palette holds each colour the way it is written into an attribute, so a colour
    that is not a plain colour name carries its own quotes. -/

namespace Schematic

/-- The colours of one theme, by what they paint. -/
structure Palette where
  /-- Fill of an instance that stands for many. -/
  replicatedFill : String
  /-- Outline of instances, and links. -/
  line : String
  /-- Fill of a host that stands for many. -/
  hostFill : String
  /-- Outline of hosts and of named groups. -/
  border : String
  /-- Title of the diagram and of groups. -/
  label : String
  background : String
  /-- Links for configuration and links found at run time. -/
  accent : String
  /-- Text of instances. -/
  nodeFont : String

/-- Dark is for pictures in static documents, light for pages on a screen. -/
inductive Theme where
  | dark
  | light
  deriving DecidableEq

namespace Theme

/-- The theme that is used when none is asked for. -/
def standard : Theme := .dark

def palette : Theme → Palette
  | .dark =>
    { replicatedFill := "\"#302315\""
      line := "bisque"
      hostFill := "darkslategray"
      border := "lightcyan4"
      label := "lightcyan3"
      background := "grey12"
      accent := "aquamarine"
      nodeFont := "\"#FFF4E7\"" }
  | .light =>
    { replicatedFill := "bisque"
      line := "bisque4"
      hostFill := "lightcyan2"
      border := "lightcyan3"
      label := "\"#616f6f\""
      background := "white"
      accent := "deepskyblue4"
      nodeFont := "\"#534b40\"" }

def name : Theme → String
  | .dark => "dark"
  | .light => "light"

/-- The theme of that name, whatever the case of its letters and the blanks around it. -/
def ofName? (s : String) : Option Theme :=
  match Text.folded s with
  | "dark" => some .dark
  | "light" => some .light
  | _ => none

end Theme

end Schematic
