import Schematic.Dot.Block
import Schematic.Dot.Text
import Schematic.Edge
import Schematic.System

/-! The DOT text of a system. It is settled by the session alone: outermost nodes come in order of
    registration, what is inside a node in order of arrival, and links last. Names and details of
    instances and the title stand in HTML labels and are written as they are. -/

namespace Schematic.Dot

/-! ### Attributes of the whole diagram -/

/-- The line with the title and what holds for the diagram as a whole. -/
def graphLine (p : Palette) (title : String) : String :=
  line " " ("graph [ tooltip = \" \", fontname = helvetica, nodesep = 0.5, label = <" ++ title
    ++ "<BR/><BR/><BR/>>, labelloc=top, fontcolor = " ++ p.label ++ ", bgcolor = " ++ p.background
    ++ ", labeljust=left, fontsize = 10 ]")

/-- The line with what holds for every instance. -/
def nodeDefaults (p : Palette) : String :=
  line " " ("node [ tooltip = \" \", fontname = helvetica, shape = box, style = \"filled,rounded\""
    ++ ", color = " ++ p.line ++ ", fontcolor = " ++ p.nodeFont
    ++ ", fillcolor = invis, fontsize = 14 ]")

/-- The line with what holds for every link. -/
def edgeDefaults (p : Palette) : String :=
  line " " ("edge [ tooltip = \" \", fontname = helvetica, fontcolor = " ++ quoted (bare p.line)
    ++ ", color = " ++ quoted (bare p.line) ++ " , fontsize = 10 ]")

/-! ### Nodes -/

/-- The table that labels an instance: its name and, below it, its details. -/
def instanceTable (i : Instance) : String :=
  "<<TABLE BORDER=\"0\"><TR><TD>" ++ i.name ++ "</TD></TR>"
    ++ (match i.details? with
        | none => ""
        | some details => "<TR><TD><FONT POINT-SIZE=\"10\">" ++ details ++ "</FONT></TD></TR>")
    ++ "</TABLE>>"

/-- The statement for an instance. -/
def instanceBody (p : Palette) (i : Instance) : String :=
  i.ident.text ++ " [ label = " ++ instanceTable i
    ++ (if i.multiple then ", fontcolor = " ++ p.nodeFont ++ ", fillcolor = " ++ p.replicatedFill
        else "")
    ++ " ];"

/-- The attributes of a host's cluster. -/
def hostStyle (p : Palette) (h : Host) : String :=
  "tooltip = \" \", style=solid, label=\"\", penwidth = 2, color = " ++ p.border ++ ", fillcolor="
    ++ p.hostFill ++ " " ++ (if h.multiple then ",style=filled" else "")

/-- The attributes of a group's cluster. Without a name the cluster is not seen. -/
def groupStyle (p : Palette) (g : Group) : String :=
  match g.name with
  | some name =>
    "label=" ++ quoted (escapeQuotes name) ++ ", style=dashed, color=" ++ p.border ++ ", fontcolor="
      ++ p.label
  | none => "label=\"\", color=invis"

/-- The name of a cluster. -/
def clusterName (id : Ident) : String := "cluster_" ++ id.text

/-- A cluster around what is inside. -/
def cluster (pad : String) (id : Ident) (style inside : String) : String :=
  line pad ("subgraph " ++ clusterName id ++ opening) ++ line pad (" graph [ " ++ style ++ " ];")
    ++ inside ++ line pad closing

/-- The statement for an instance, on a line. -/
def writeLeaf (s : Session) (pad : String) (i : InstanceKey) : String :=
  match s.instance? i with
  | none => ""
  | some inst => line pad (instanceBody s.theme.palette inst)

/-- The cluster for a node that holds others, around what is inside. -/
def writeCluster (s : Session) (pad inside : String) : Node → String
  | .inst _ => inside
  | .host h =>
    match s.host? h with
    | none => ""
    | some host => cluster pad host.ident (hostStyle s.theme.palette host) inside
  | .group g =>
    match s.group? g with
    | none => ""
    | some group => cluster pad group.ident (groupStyle s.theme.palette group) inside

mutual

/-- The text of a block; what is inside stands one blank further in. -/
def Block.write (s : Session) (pad : String) : Block → String
  | .leaf i => writeLeaf s pad i
  | .cluster n body => writeCluster s pad (writeAll s (pad ++ " ") body) n

/-- The texts of blocks, one after the other. -/
def writeAll (s : Session) (pad : String) : List Block → String
  | [] => ""
  | b :: bs => b.write s pad ++ writeAll s pad bs

end

/-! ### Links -/

/-- The options of an edge statement, in their fixed order. -/
def edgeOptions (p : Palette) (e : Edge) (label : Option String) : List String :=
  let colour := bare (if e.accent then p.accent else p.line)
  (match e.arrow with
    | .both => [assign "dir" "both"]
    | .back => [assign "dir" "back"]
    | .forward => [])
  ++ (match e.stroke with
    | .dashed => [assign "style" "dashed"]
    | .dotted => [assign "style" "dotted"]
    | .solid => [])
  ++ (match label with
    | some text => [assign "label" (quoted (" " ++ escapeQuotes text ++ " "))]
    | none => [])
  ++ (if e.accent then [assign "fontcolor" (quoted colour)] else [])
  ++ (if e.striped then [assign "color" (quoted (colour ++ ":" ++ colour))]
      else if e.accent then [assign "color" (quoted colour)]
      else [])

/-- The printed name of an instance. -/
def instanceName (s : Session) (i : InstanceKey) : String :=
  ((s.identOf? (.inst i)).map Ident.text).getD ""

/-- The statement for a link. -/
def edgeBody (s : Session) (l : Link) : String :=
  let e := Edge.ofLink s l
  instanceName s e.tail ++ " -> " ++ instanceName s e.head ++ " [ "
    ++ ", ".intercalate (edgeOptions s.theme.palette e l.label) ++ " ];"

/-- The statement for a link, on a line. -/
def writeLink (s : Session) (pad : String) (l : LinkKey) : String :=
  match s.link? l with
  | none => ""
  | some link => line pad (edgeBody s link)

/-! ### The whole -/

/-- What stands between the attributes of the diagram and its end. -/
def body (s : Session) (sys : System) : String :=
  writeAll s " " (sys.nodes.map (block s)) ++ String.join (sys.links.map (writeLink s " "))

/-- The DOT text of a system. -/
def render (s : Session) (sys : System) : String :=
  let p := s.theme.palette
  line "" ("digraph" ++ opening) ++ graphLine p sys.name ++ nodeDefaults p ++ edgeDefaults p
    ++ body s sys ++ closing

end Schematic.Dot
