/-! The table that collects the images of all variants: a row for each system, a column for each
    processor. -/

namespace Schematic

structure Grid where
  /-- The titles of the columns, when titles were asked for. -/
  header : Option (List String) := none
  /-- The title and the cells of every row. -/
  rows : List (String × List String) := []

namespace Grid

/-! ### Recording -/

/-- A table without rows; `titled` says whether titles were asked for. -/
def start (titled : Bool) : Grid := { header := if titled then some [] else none }

/-- Adds the title of a column. What comes with later rows than the first is not kept. -/
def addColumn (g : Grid) (title : String) : Grid :=
  if 1 < g.rows.length then g else { g with header := g.header.map (· ++ [title]) }

def startRow (g : Grid) (title : String) : Grid := { g with rows := g.rows ++ [(title, [])] }

/-- Adds a cell to the last row. -/
def addCell (g : Grid) (content : String) : Grid :=
  match g.rows.getLast? with
  | none => g
  | some (title, cells) => { g with rows := g.rows.dropLast ++ [(title, cells ++ [content])] }

/-! ### Writing -/

/-- Something between an opening and a closing tag. -/
def tagged (tag inside : String) : String := "<" ++ tag ++ ">" ++ inside ++ "</" ++ tag ++ ">"

def headerRow (titles : List String) : String :=
  tagged "tr" (tagged "th" "" ++ String.join (titles.map (tagged "th"))) ++ "\n"

/-- A row; its title is only written where the table has titles. -/
def row (titled : Bool) (r : String × List String) : String :=
  tagged "tr" ((if titled then tagged "th" r.1 else "") ++ String.join (r.2.map (tagged "td")))
    ++ "\n"

def text (g : Grid) : String :=
  "<table class='archix-table'>\n"
    ++ (match g.header with
        | some titles => headerRow titles
        | none => "")
    ++ String.join (g.rows.map (row g.header.isSome)) ++ "</table>"

end Grid

end Schematic
