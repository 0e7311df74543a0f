import Mathlib.Logic.Basic
import Schematic.Dot.Writer

/-! The lines of a drawing, letter by letter. The writer puts its lines together from small pieces; here
    each line is written down as a whole, as it is to be found in a file, and the writer is shown to
    write just that. -/

namespace Schematic.Dot

/-- One blank, and one more for each cluster around. -/
def indent (depth : Nat) : String := String.ofList (List.replicate (depth + 1) ' ')

/-- A colour without the double quotes around it. -/
def unquoted (colour : String) : String :=
  String.ofList ((colour.toList.dropWhile (· == '"')).reverse.dropWhile (· == '"')).reverse

/-! ### Attributes -/

/-- The line with the title and what holds for the diagram as a whole. -/
def titleLine (p : Palette) (title : String) : String :=
  " graph [ tooltip = \" \", fontname = helvetica, nodesep = 0.5, label = <" ++ title ++
    "<BR/><BR/><BR/>>, labelloc=top, fontcolor = " ++ p.label ++ ", bgcolor = " ++ p.background ++
    ", labeljust=left, fontsize = 10 ]\n"

/-- The line with what holds for every instance. -/
def nodesLine (p : Palette) : String :=
  " node [ tooltip = \" \", fontname = helvetica, shape = box, style = \"filled,rounded\"" ++
    ", color = " ++ p.line ++ ", fontcolor = " ++ p.nodeFont ++ ", fillcolor = invis, fontsize = 14 ]\n"

/-- The line with what holds for every edge. -/
def edgesLine (p : Palette) : String :=
  " edge [ tooltip = \" \", fontname = helvetica, fontcolor = \"" ++ unquoted p.line ++
    "\", color = \"" ++ unquoted p.line ++ "\" , fontsize = 10 ]\n"

/-! ### Nodes -/

/-- The line of an instance. -/
def nodeLine (p : Palette) (pad : String) (i : Instance) : String :=
  pad ++ i.ident.text ++ " [ label = <<TABLE BORDER=\"0\"><TR><TD>" ++ i.name ++ "</TD></TR>" ++
    (if i.notes = "" then ""
      else "<TR><TD><FONT POINT-SIZE=\"10\">" ++ i.notes ++ "</FONT></TD></TR>") ++
    "</TABLE>>" ++
    (if i.multiple then ", fontcolor = " ++ p.nodeFont ++ ", fillcolor = " ++ p.replicatedFill
      else "") ++ " ];\n"

/-- The lines that open the cluster of a host. -/
def hostLines (p : Palette) (pad : String) (h : Host) : String :=
  pad ++ "subgraph cluster_" ++ h.ident.text ++ " \x7b\n" ++
    pad ++ " graph [ tooltip = \" \", style=solid, label=\"\", penwidth = 2, color = " ++ p.border ++
    ", fillcolor=" ++ p.hostFill ++ " " ++ (if h.multiple then ",style=filled" else "") ++ " ];\n"

/-- The lines that open the cluster of a group. -/
def groupLines (p : Palette) (pad : String) (g : Group) : String :=
  pad ++ "subgraph cluster_" ++ g.ident.text ++ " \x7b\n" ++
    pad ++ " graph [ " ++ (match g.name with
      | some name => "label=\"" ++ escapeQuotes name ++ "\", style=dashed, color=" ++ p.border ++
        ", fontcolor=" ++ p.label
      | none => "label=\"\", color=invis") ++ " ];\n"

/-! ### Edges -/

/-- The option that says where the arrows are. -/
def arrowOptions : Arrow → List String
  | .both => ["dir = both"]
  | .back => ["dir = back"]
  | .forward => []

/-- The option that says how the line is drawn. -/
def strokeOptions : Stroke → List String
  | .dashed => ["style = dashed"]
  | .dotted => ["style = dotted"]
  | .solid => []

/-- The colour of an edge, without the quotes it may carry. -/
def edgeColour (p : Palette) (e : Edge) : String := unquoted (if e.accent then p.accent else p.line)

/-- The options for the colour of an edge and its label. -/
def colourOptions (p : Palette) (e : Edge) : List String :=
  let colour := edgeColour p e
  match e.accent, e.striped with
  | true, true => ["fontcolor = \"" ++ colour ++ "\"", "color = \"" ++ colour ++ ":" ++ colour ++ "\""]
  | true, false => ["fontcolor = \"" ++ colour ++ "\"", "color = \"" ++ colour ++ "\""]
  | false, true => ["color = \"" ++ colour ++ ":" ++ colour ++ "\""]
  | false, false => []

/-- The options of an edge apart from the one that places the arrows. -/
def styleOptions (p : Palette) (e : Edge) (label : Option String) : List String :=
  strokeOptions e.stroke ++
    (match label with
      | some text => ["label = \" " ++ escapeQuotes text ++ " \""]
      | none => []) ++
    colourOptions p e

/-- The line for an edge with options. -/
def edgeLine (s : Session) (pad : String) (e : Edge) (options : List String) : String :=
  pad ++ instanceName s e.tail ++ " -> " ++ instanceName s e.head ++ " [ " ++
    ", ".intercalate options ++ " ];\n"

/-- The line of a link. -/
def linkLine (s : Session) (pad : String) (l : Link) : String :=
  let e := Edge.ofLink s l
  edgeLine s pad e (arrowOptions e.arrow ++ styleOptions s.theme.palette e l.label)

/-! ### The writer -/

/-- Two pieces of text side by side are one piece. -/
theorem merge {a b c : String} (h : a ++ b = c) (rest : String) : a ++ (b ++ rest) = c ++ rest := by
  rw [← h, String.append_assoc]

/-- A line that ends a list of options. -/
theorem line_eq {body before : String} (h : body = before ++ " ];") (pad : String) :
    line pad body = pad ++ (before ++ " ];\n") := by
  have hend : " ];" ++ "\n" = " ];\n" := by decide
  rw [line, h, String.append_assoc, String.append_assoc, hend]

theorem line_digraph : line "" ("digraph" ++ opening) = "digraph \x7b\n" := by decide

theorem graphLine_eq (p : Palette) (title : String) : graphLine p title = titleLine p title := by
  have hopen : " " ++ "graph [ tooltip = \" \", fontname = helvetica, nodesep = 0.5, label = <" =
      " graph [ tooltip = \" \", fontname = helvetica, nodesep = 0.5, label = <" := by simp
  have hend : ", labeljust=left, fontsize = 10 ]" ++ "\n" = ", labeljust=left, fontsize = 10 ]\n" := by
    simp
  unfold graphLine line titleLine
  simp only [String.append_assoc, merge hopen, hend]

theorem nodeDefaults_eq (p : Palette) : nodeDefaults p = nodesLine p := by
  have hopen : " " ++
      "node [ tooltip = \" \", fontname = helvetica, shape = box, style = \"filled,rounded\"" =
      " node [ tooltip = \" \", fontname = helvetica, shape = box, style = \"filled,rounded\"" := by simp
  have hend : ", fillcolor = invis, fontsize = 14 ]" ++ "\n" =
      ", fillcolor = invis, fontsize = 14 ]\n" := by simp
  unfold nodeDefaults line nodesLine
  simp only [String.append_assoc, merge hopen, hend]

theorem edgeDefaults_eq (p : Palette) : edgeDefaults p = edgesLine p := by
  have hopen : " " ++ ("edge [ tooltip = \" \", fontname = helvetica, fontcolor = " ++ "\"") =
      " edge [ tooltip = \" \", fontname = helvetica, fontcolor = \"" := by simp
  have hmiddle : "\"" ++ (", color = " ++ "\"") = "\", color = \"" := by simp
  have hend : "\"" ++ (" , fontsize = 10 ]" ++ "\n") = "\" , fontsize = 10 ]\n" := by simp
  have hbare : bare p.line = unquoted p.line := rfl
  unfold edgeDefaults line quoted edgesLine
  simp only [← hopen, ← hmiddle, ← hend, String.append_assoc, hbare]

theorem line_opening (pad : String) (id : Ident) :
    line pad ("subgraph " ++ clusterName id ++ opening) =
      pad ++ "subgraph cluster_" ++ id.text ++ " \x7b\n" := by
  have hname : "subgraph " ++ "cluster_" = "subgraph cluster_" := by decide
  have hbrace : opening ++ "\n" = " \x7b\n" := by decide
  simp only [line, clusterName, String.append_assoc, hbrace, merge hname]

theorem line_closing (pad : String) : line pad closing = pad ++ "\x7d\n" := by
  have hbrace : closing ++ "\n" = "\x7d\n" := by decide
  rw [line, String.append_assoc, hbrace]

theorem line_instanceBody (p : Palette) (pad : String) (i : Instance) :
    line pad (instanceBody p i) = nodeLine p pad i := by
  have htable : " [ label = " ++ "<<TABLE BORDER=\"0\"><TR><TD>" =
      " [ label = <<TABLE BORDER=\"0\"><TR><TD>" := by simp
  rw [line_eq (instanceBody.eq_def p i)]
  unfold instanceTable nodeLine
  by_cases hnotes : i.notes = ""
  · have hdetails : i.details? = none := by simp [Instance.details?, hnotes]
    simp only [hdetails, if_pos hnotes, String.append_assoc, merge htable]
  · have hdetails : i.details? = some i.notes := by simp [Instance.details?, hnotes]
    simp only [hdetails, if_neg hnotes, String.append_assoc, merge htable]

/-- The lines of a host's cluster, around what is inside. -/
theorem cluster_host (p : Palette) (pad : String) (h : Host) (inside : String) :
    cluster pad h.ident (hostStyle p h) inside = hostLines p pad h ++ (inside ++ (pad ++ "\x7d\n")) := by
  have hstyle : " graph [ " ++ "tooltip = \" \", style=solid, label=\"\", penwidth = 2, color = " =
      " graph [ tooltip = \" \", style=solid, label=\"\", penwidth = 2, color = " := by simp
  rw [cluster, line_opening, line_eq rfl, line_closing]
  unfold hostStyle hostLines
  simp only [String.append_assoc, merge hstyle]

/-- The lines of a group's cluster, around what is inside. -/
theorem cluster_group (p : Palette) (pad : String) (g : Group) (inside : String) :
    cluster pad g.ident (groupStyle p g) inside =
      groupLines p pad g ++ (inside ++ (pad ++ "\x7d\n")) := by
  have hquote : "label=" ++ "\"" = "label=\"" := by simp
  have hquote' : "\"" ++ ", style=dashed, color=" = "\", style=dashed, color=" := by simp
  rw [cluster, line_opening, line_eq rfl, line_closing, groupStyle, groupLines]
  cases g.name with
  | none => simp only [String.append_assoc]
  | some name => simp only [quoted, String.append_assoc, merge hquote, merge hquote']

/-- A value between double quotes. -/
theorem assign_quoted {key opens : String} (h : key ++ " = " ++ "\"" = opens) (value : String) :
    assign key (quoted value) = opens ++ value ++ "\"" := by
  rw [assign, quoted, ← h]
  simp only [String.append_assoc]

theorem assign_label (text : String) : assign "label" (quoted (" " ++ escapeQuotes text ++ " ")) =
    "label = \" " ++ escapeQuotes text ++ " \"" := by
  have hopen : "label = \"" ++ " " = "label = \" " := by simp
  have hclose : " " ++ "\"" = " \"" := by simp
  rw [@assign_quoted "label" "label = \"" (by simp)]
  simp only [String.append_assoc, merge hopen, hclose]

/-- The options for colours, which come last. -/
theorem colourOptions_eq (p : Palette) (e : Edge) :
    (if e.accent then [assign "fontcolor" (quoted (edgeColour p e))] else []) ++
      (if e.striped then [assign "color" (quoted (edgeColour p e ++ ":" ++ edgeColour p e))]
        else if e.accent then [assign "color" (quoted (edgeColour p e))]
        else []) = colourOptions p e := by
  have hfont := @assign_quoted "fontcolor" "fontcolor = \"" (by simp)
  have hcolour := @assign_quoted "color" "color = \"" (by simp)
  cases haccent : e.accent <;> cases hstriped : e.striped <;>
    simp [colourOptions, haccent, hstriped, hfont, hcolour, String.append_assoc]

theorem edgeOptions_eq (p : Palette) (e : Edge) (label : Option String) :
    edgeOptions p e label = arrowOptions e.arrow ++ styleOptions p e label := by
  unfold edgeOptions styleOptions
  simp only [← colourOptions_eq, List.append_assoc]
  refine congrArg₂ (· ++ ·) ?arrow (congrArg₂ (· ++ ·) ?stroke (congrArg₂ (· ++ ·) ?label rfl))
  case arrow => cases e.arrow <;> rfl
  case stroke => cases e.stroke <;> rfl
  case label =>
    cases label with
    | none => rfl
    | some text => exact congrArg (fun t => [t]) (assign_label text)

theorem line_edgeBody (s : Session) (pad : String) (l : Link) :
    line pad (edgeBody s l) = linkLine s pad l := by
  rw [line_eq (edgeBody.eq_def s l)]
  simp only [edgeOptions_eq, linkLine, edgeLine, String.append_assoc]

end Schematic.Dot
