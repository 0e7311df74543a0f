import Schematic.Document.Validation
import Schematic.Proofs.Dot.Forest
import Schematic.Proofs.Dot.Quoted

/-! The quoted strings of a drawing. Every group with a name and every link with a label that is drawn
    has one string of its own in the text, and whether a reader comes to the end of that string where it
    was meant to end is settled by the name or the label alone, whatever the text goes on with. -/

namespace Schematic.Dot

/-- The text has a string with `inside` between its quotes behind `front`, and a reader of the text comes
    to the end of the string at its last quote just when `sound` holds. -/
def Quotes (text front inside : String) (sound : Prop) : Prop :=
  ∃ before after, text = before ++ front ++ "\"" ++ inside ++ "\"" ++ after ∧
    (Closes inside.toList after.toList ↔ sound)

/-- What comes before the label of a group: the line that opens its cluster, and an attribute list. -/
def groupFront (s : Session) (g : GroupKey) (group : Group) : String :=
  let pad := indent (s.ancestors (.group g)).length
  pad ++ "subgraph cluster_" ++ group.ident.text ++ " \x7b\n" ++ pad ++ " graph [ label="

/-- What comes before the label of a link: its ends and the options before the label. -/
def linkFront (s : Session) (link : Link) : String :=
  let e := Edge.ofLink s link
  " " ++ instanceName s e.tail ++ " -> " ++ instanceName s e.head ++ " [ "
    ++ String.join ((arrowOptions e.arrow ++ strokeOptions e.stroke).map (· ++ ", ")) ++ "label = "

variable {s : Session} {sys : System}

/-! ### Parts of the text -/

theorem map_fst_located : ∀ (xs : List Statement) (above : List Node),
    (located above xs).map Prod.fst = xs
  | [], _ => rfl
  | .leaf i :: rest, above => by rw [located, List.map_cons, map_fst_located rest]
  | .enter n :: rest, above => by rw [located, List.map_cons, map_fst_located rest]
  | .leave n :: rest, above => by rw [located, List.map_cons, map_fst_located rest]
  | .edge l :: rest, above => by rw [located, List.map_cons, map_fst_located rest]

/-- A statement of a drawing stands in its text. -/
theorem render_of_mem (hs : s.Sound) (hsys : sys.Rooted s) {x : Statement × List Node}
    (hx : x ∈ located [] (statements s sys)) :
    ∃ before after, render s sys = before ++ x.1.write s x.2.length ++ after := by
  obtain ⟨xs, ys, hxs⟩ := List.append_of_mem hx
  refine ⟨line "" ("digraph" ++ opening) ++ graphLine s.theme.palette sys.name ++
    nodeDefaults s.theme.palette ++ edgeDefaults s.theme.palette ++ writeLocated s xs,
    writeLocated s ys ++ closing, ?_⟩
  rw [render, body_eq hs hsys, hxs, writeLocated_append, writeLocated_cons]
  simp only [String.append_assoc]

theorem intercalate_cons (sep x : String) : ∀ after : List String,
    sep.intercalate (x :: after) = x ++ String.join (after.map (sep ++ ·))
  | [] => by simp
  | y :: after => by
    rw [String.intercalate_cons_cons, intercalate_cons sep y after, List.map_cons, String.join_cons,
      String.append_assoc, String.append_assoc]

/-- A list with separators, taken apart at one of its entries. -/
theorem intercalate_append_cons (sep x : String) (after : List String) : ∀ before : List String,
    sep.intercalate (before ++ x :: after) =
      String.join (before.map (· ++ sep)) ++ (x ++ String.join (after.map (sep ++ ·)))
  | [] => by
    rw [List.nil_append, intercalate_cons]
    rfl
  | y :: before => by
    rw [List.cons_append, String.intercalate_cons_of_ne_nil (by simp),
      intercalate_append_cons sep x after before, List.map_cons, String.join_cons]
    simp only [String.append_assoc]

/-! ### Groups and links -/

/-- A name of a group is all that stands between the quotes of its label. -/
theorem write_named_group {g : GroupKey} {group : Group} (hg : s.group? g = some group) {name : String}
    (hname : group.name = some name) : ∃ after,
    Statement.write s (s.ancestors (.group g)).length (.enter (.group g)) =
      groupFront s g group ++ "\"" ++ escapeQuotes name ++ "\"" ++ after := by
  have hopen : "label=" ++ "\"" = "label=\"" := by simp
  have hlabel : " graph [ " ++ "label=" = " graph [ label=" := by simp
  have hclose : "\"" ++ ", style=dashed, color=" = "\", style=dashed, color=" := by simp
  refine ⟨", style=dashed, color=" ++ s.theme.palette.border ++ ", fontcolor=" ++
    s.theme.palette.label ++ " ];\n", ?_⟩
  rw [Statement.write, hg]
  simp only [groupLines, hname, groupFront, String.append_assoc, ← merge hopen, ← merge hlabel,
    ← merge hclose]

/-- A label of a link stands between two blanks. -/
theorem write_labelled_link {l : LinkKey} {link : Link} (hl : s.link? l = some link) {label : String}
    (hlabel : link.label = some label) : ∃ after, Statement.write s 0 (.edge l) =
      linkFront s link ++ "\"" ++ (" " ++ escapeQuotes label ++ " ") ++ "\"" ++ after := by
  have hpad : indent 0 = " " := rfl
  have hopen : "label = " ++ "\"" = "label = \"" := by simp
  have hblank : "label = \"" ++ " " = "label = \" " := by simp
  have hclose : " " ++ "\"" = " \"" := by simp
  -- the label stands between the options for the stroke and those for the colour
  have hoptions : ∀ p e, arrowOptions e.arrow ++ styleOptions p e (some label) =
      (arrowOptions e.arrow ++ strokeOptions e.stroke) ++
        ("label = \" " ++ escapeQuotes label ++ " \"") :: colourOptions p e := by
    intro p e
    rw [styleOptions, List.append_assoc, List.append_assoc]
    rfl
  refine ⟨String.join ((colourOptions s.theme.palette (Edge.ofLink s link)).map (", " ++ ·)) ++ " ];\n",
    ?_⟩
  rw [Statement.write, hl]
  simp only [linkLine, edgeLine, hpad, hlabel, hoptions, intercalate_append_cons, linkFront,
    String.append_assoc, merge hopen, merge hblank, merge hclose]

/-- A string that a statement of a drawing writes is one of the strings of the drawing. -/
theorem quotes_of_mem (hs : s.Sound) (hsys : sys.Rooted s) {x : Statement × List Node}
    (hx : x ∈ located [] (statements s sys)) {front inside : String} {sound : Prop}
    (hwrite : ∃ after, x.1.write s x.2.length = front ++ "\"" ++ inside ++ "\"" ++ after)
    (hsound : ∀ after, Closes inside.toList after ↔ sound) :
    Quotes (render s sys) front inside sound := by
  obtain ⟨before, after, hrender⟩ := render_of_mem hs hsys hx
  obtain ⟨rest, hwrite⟩ := hwrite
  refine ⟨before, rest ++ after, ?_, hsound _⟩
  rw [hrender, hwrite]
  simp only [String.append_assoc]

theorem toList_padded (label : String) :
    (" " ++ escapeQuotes label ++ " ").toList = ' ' :: escaped label.toList ++ [' '] := by
  rw [String.toList_append, String.toList_append, toList_escapeQuotes]
  rfl

theorem restoreQuotes_padded (label : String) :
    restoreQuotes (" " ++ escapeQuotes label ++ " ").toList = (" " ++ label ++ " ").toList := by
  rw [toList_padded, escaped_padded, restoreQuotes_escaped, String.toList_append, String.toList_append]
  rfl

/-- Every group with a name and every link with a label that is drawn has its string in the drawing. The
    string of a group is closed by the quote that was written to close it just when no double quote of
    the name stands behind an odd number of backslashes, and the name does not end in such a number.
    For links, which have a blank before the closing quote, only double quotes of the label matter.
    In any case the name, or the label between its blanks, is what one gets by turning every `\"` back
    into a double quote. -/
theorem labels_close {s : Session} {sys : System} (hs : s.Built) (hsys : sys.Made s) :
    (∀ g group name, s.group? g = some group → group.name = some name →
      s.outermost (.group g) ∈ sys.nodes →
      Quotes (render s sys) (groupFront s g group) (escapeQuotes name)
        (¬ Breaks name.toList ∧ ¬ Dangles name.toList) ∧
      restoreQuotes (escapeQuotes name).toList = name.toList) ∧
    (∀ l link label, l ∈ sys.links → s.link? l = some link → link.label = some label →
      Quotes (render s sys) (linkFront s link) (" " ++ escapeQuotes label ++ " ")
        (¬ Breaks label.toList) ∧
      restoreQuotes (" " ++ escapeQuotes label ++ " ").toList = (" " ++ label ++ " ").toList) := by
  have hsound := hs.sound
  have hrooted := hsys.rooted hsound
  constructor
  · intro g group name hg hname hdrawn
    have hin : Session.HasGroup s g := Session.hasGroup_iff.mpr ⟨group, hg⟩
    have hmem : Statement.ofNode (.group g) ∈ (located [] (statements s sys)).map Prod.fst := by
      rw [map_fst_located]
      exact (mem_statements_iff hsound hrooted).mpr ⟨hin, hdrawn⟩
    obtain ⟨⟨x, above⟩, hx, hfst⟩ := List.mem_map.mp hmem
    obtain rfl : x = .enter (.group g) := hfst
    obtain rfl : above = s.ancestors (.group g) := above_eq_ancestors hsound hrooted hx
    refine ⟨quotes_of_mem hsound hrooted hx (write_named_group hg hname) fun after => ?_, ?_⟩
    · rw [toList_escapeQuotes, closes_escaped_iff]
    · rw [toList_escapeQuotes, restoreQuotes_escaped]
  · intro l link label hmem hl hlabel
    have hx : (Statement.edge l, []) ∈ located [] (statements s sys) := by
      rw [located_system]
      exact List.mem_append_right _ (List.mem_map.mpr ⟨l, hmem, rfl⟩)
    refine ⟨quotes_of_mem hsound hrooted hx (write_labelled_link hl hlabel) fun after => ?_,
      restoreQuotes_padded label⟩
    rw [toList_padded, closes_padded_iff]

/-- A group with double quotes in its name, and a link whose label ends in a backslash. -/
def tiers : Session :=
  [.step (.newGroup (some "the \"edge\" tier")), .step (.newInstance "a"), .step (.newInstance "b"),
    .step (.placeIn (.inst ⟨0⟩) ⟨0⟩), .connect .plain ⟨0⟩ ⟨1⟩,
    .modifyAll ⟨0⟩ [.label "say \"C:\\"]].foldl Call.run (.fresh .dark)

/-- Both strings in the drawing of `tiers` are closed where they should be. -/
theorem tiers_closed :
    let sys : System := System.is ⟨⟨"system", 1⟩, "all", [], [], none⟩ tiers [⟨0⟩]
    tiers.Built ∧ sys.Made tiers ∧
    Quotes (render tiers sys) " subgraph cluster_group_100 \x7b\n  graph [ label="
      "the \\\"edge\\\" tier" True ∧
    Quotes (render tiers sys) " instance_101 -> instance_102 [ label = " " say \\\"C:\\ " True := by
  intro sys
  have hbuilt : tiers.Built := (Session.Built.fresh .dark).foldl (by decide)
  have hmade : sys.Made tiers := .is [⟨0⟩] (.new _ _) (by decide)
  obtain ⟨hgroups, hlinks⟩ := labels_close hbuilt hmade
  have hname : '\\' ∉ "the \"edge\" tier".toList := by decide
  have hlabel : ¬ Breaks "say \"C:\\".toList := by decide
  refine ⟨hbuilt, hmade, ?_, ?_⟩
  · obtain ⟨before, after, hrender, hcloses⟩ := (hgroups ⟨0⟩ _ "the \"edge\" tier" rfl rfl (by decide)).1
    exact ⟨before, after, hrender, iff_of_true (hcloses.mpr (not_breaks_of_not_mem hname)) trivial⟩
  · obtain ⟨before, after, hrender, hcloses⟩ := (hlinks ⟨0⟩ _ "say \"C:\\" (by decide) rfl rfl).1
    exact ⟨before, after, hrender, iff_of_true (hcloses.mpr hlabel) trivial⟩

/-- A document with a group whose name ends in a backslash, and a link whose label has a backslash right
    before a double quote. -/
def drive : Document where
  groups := [{ id := "g", name := some "C:\\" }]
  instances := [{ id := "a", within := some "g" }, { id := "b" }]
  systems := [{ name := "s", links := [{ path := ["a", "b"], label := some "\\\" path" }] }]

/-- A reader takes the end of the group's label for a part of its string, and reads on to the next double
    quote; and it takes a double quote of the link's label for the end of that one. -/
theorem drive_misread : drive.validate = .ok () ∧ ∃ before between after,
    drive.renderDot = [("s", before ++ " graph [ label=" ++ "\"" ++ "C:\\" ++ "\"" ++ between ++
      " [ label = " ++ "\"" ++ " \\\\\" path " ++ "\"" ++ after)] ∧
    (readQuoted false ("C:\\\"" ++ between).toList).map Prod.fst = some ("C:\\\", style=dashed, " ++
      "color=lightcyan4, fontcolor=lightcyan3 ];\n  instance_101 [ label = <<TABLE BORDER=").toList ∧
    readQuoted false (" \\\\\" path \"" ++ after).toList =
      some (" \\\\".toList, (" path \"" ++ after).toList) := by
  refine ⟨by decide, line "" ("digraph" ++ opening) ++ graphLine Theme.dark.palette "s" ++
    nodeDefaults Theme.dark.palette ++ edgeDefaults Theme.dark.palette ++
    line " " ("subgraph cluster_group_100" ++ opening) ++ " ",
    ", style=dashed, color=lightcyan4, fontcolor=lightcyan3 ];\n" ++
    line "  " (instanceBody Theme.dark.palette { ident := ⟨"instance", 101⟩, name := "a" }) ++
    line " " closing ++
    line " " (instanceBody Theme.dark.palette { ident := ⟨"instance", 102⟩, name := "b" }) ++
    " instance_101 -> instance_102", " ];\n" ++ closing, ?_, ?_, ?_⟩
  · decide +kernel
  · simp only [String.toList_append]
    decide +kernel
  · simp only [String.toList_append]
    decide +kernel

end Schematic.Dot
