import Mathlib.Data.List.Induction
import Schematic.CommandLine

/-! What arguments come to, in whatever order they are given. An option and its value are a group, and
    so is every other argument. Groups are accepted or not each by itself, but for two inputs and a
    table of images that do not fit into one; and of what is accepted it only counts which flags are
    there and which value of an option is the last. -/

namespace Schematic.CommandLine

/-- Arguments that belong together. -/
inductive Group where
  | alone (arg : String) (plain : ¬ isValued arg)
  | valued (option value : String) (named : isValued option)
  deriving DecidableEq

namespace Group

/-- The arguments of a group. -/
def tokens : Group → List String
  | .alone arg _ => [arg]
  | .valued option value _ => [option, value]

/-- The argument, if it stands alone. -/
def alone? : Group → Option String
  | .alone arg _ => some arg
  | .valued .. => none

/-- The value that a group gives to an option. -/
def value? (name : String) : Group → Option String
  | .alone .. => none
  | .valued option value _ => if option = name then some value else none

/-- The names of flags. -/
def flags : List String := ["--native", "--grid", "--header", "--dot"]

/-- A flag, the word for the one thing to do, an input, or an option with a value that it can have. -/
def Known : Group → Prop
  | .alone arg _ => arg ∈ flags ∨ arg = "render" ∨ isInput arg
  | .valued option value _ =>
    (option = "--theme" → (Theme.ofName? value).isSome) ∧
      (option = "--format" → (ImageFormat.ofName? value).isSome)

end Group

/-- Arguments as groups; nothing if the last one is an option without a value. -/
def groups? : List String → Option (List Group)
  | [] => some []
  | [arg] => if h : isValued arg then none else some [.alone arg h]
  | arg :: next :: rest =>
    if h : isValued arg then (groups? rest).map (.valued arg next h :: ·)
    else (groups? (next :: rest)).map (.alone arg h :: ·)

/-- All arguments that stand alone. -/
def lone (gs : List Group) : List String := gs.filterMap Group.alone?

/-- All values of an option, from the first to the last. -/
def values (name : String) (gs : List Group) : List String := gs.filterMap (Group.value? name)

/-- All inputs. -/
def inputs (gs : List Group) : List String := (lone gs).filter fun arg => isInput arg && arg ≠ "render"

/-- The format that is asked for last. -/
def lastFormat (gs : List Group) : ImageFormat :=
  ((values "--format" gs).getLast?.bind ImageFormat.ofName?).getD .svg

/-- A table of images is asked for. -/
def AsksForTable (gs : List Group) : Prop := "--grid" ∈ lone gs ∨ values "--html" gs ≠ []

/-- The groups can be used. -/
structure Accepted (gs : List Group) : Prop where
  known : ∀ g ∈ gs, g.Known
  oneInput : (inputs gs).length ≤ 1
  noHelp : "--help" ∉ lone gs ∧ "-h" ∉ lone gs
  table : AsksForTable gs → lastFormat gs = .svg

/-- What the groups ask for. -/
structure Asked (gs : List Group) (r : Request) : Prop where
  input : r.input = (inputs gs).head?
  theme : r.theme = (values "--theme" gs).getLast?.bind Theme.ofName?
  format : r.format = lastFormat gs
  native : r.native = true ↔ "--native" ∈ lone gs
  grid : r.grid = true ↔ AsksForTable gs
  header : r.header = true ↔ "--header" ∈ lone gs
  outDir : r.outDir = (values "--out-dir" gs).getLast?
  html : r.html = (values "--html" gs).getLast?
  dot : r.dot = true ↔ "--dot" ∈ lone gs

variable {gs hs : List Group} {g : Group} {args : List String} {r r' : Request}

/-! ### From arguments to groups -/

/-- The groups have the arguments in their order. -/
theorem tokens_groups : ∀ {args : List String} {gs : List Group}, groups? args = some gs →
    gs.flatMap Group.tokens = args
  | [], gs, h => by
    cases h
    rfl
  | [arg], gs, h => by
    rw [groups?] at h
    split at h
    · cases h
    · cases h
      rfl
  | arg :: next :: rest, gs, h => by
    rw [groups?] at h
    split at h
    all_goals
      obtain ⟨gs, hgs, rfl⟩ := Option.map_eq_some_iff.mp h
      rw [List.flatMap_cons, tokens_groups hgs]
      rfl

/-- Groups are found again in their arguments. -/
theorem groups_tokens : ∀ gs : List Group, groups? (gs.flatMap Group.tokens) = some gs
  | [] => rfl
  | .alone arg plain :: gs => by
    have hrest := groups_tokens gs
    rw [List.flatMap_cons, Group.tokens, List.singleton_append]
    cases hargs : gs.flatMap Group.tokens with
    | nil =>
      rw [hargs] at hrest
      cases hrest
      rw [groups?, dif_neg plain]
    | cons next rest =>
      rw [hargs] at hrest
      rw [groups?, dif_neg plain, hrest]
      rfl
  | .valued option value named :: gs => by
    rw [List.flatMap_cons, Group.tokens, List.cons_append, List.cons_append, List.nil_append, groups?,
      dif_pos named, groups_tokens gs]
    rfl

/-- Takes one group. -/
def Request.takeGroup (r : Request) : Group → Option Request
  | .alone arg _ => (r.flag? arg).or (r.input? arg)
  | .valued option value _ => r.valued? option value

/-- Arguments are taken group by group. -/
theorem takeAll_eq : ∀ (args : List String) (r : Request),
    r.takeAll args = (groups? args).bind fun gs => gs.foldlM Request.takeGroup r
  | [], r => rfl
  | [arg], r => by
    rw [Request.takeAll, groups?]
    by_cases h : isValued arg
    · rw [if_pos h, dif_pos h, Option.bind_none]
    · rw [if_neg h, dif_neg h, Option.bind_some, List.foldlM_cons]
      simp [Request.takeGroup]
  | arg :: next :: rest, r => by
    rw [Request.takeAll, groups?]
    by_cases h : isValued arg
    · simp only [if_pos h, dif_pos h, takeAll_eq rest, Option.bind_map, Function.comp_def,
        List.foldlM_cons, Request.takeGroup, Option.bind_eq_bind]
      exact Option.bind_comm ..
    · simp only [if_neg h, dif_neg h, takeAll_eq (next :: rest), Option.bind_map, Function.comp_def,
        List.foldlM_cons, Request.takeGroup, Option.bind_eq_bind]
      exact Option.bind_comm ..

/-! ### What one group adds -/

@[simp] theorem lone_append : lone (gs ++ hs) = lone gs ++ lone hs := List.filterMap_append

@[simp] theorem values_append (name : String) :
    values name (gs ++ hs) = values name gs ++ values name hs := List.filterMap_append

@[simp] theorem inputs_append : inputs (gs ++ hs) = inputs gs ++ inputs hs := by
  rw [inputs, lone_append, List.filter_append, inputs, inputs]

@[simp] theorem lone_alone {arg : String} (plain : ¬ isValued arg) :
    lone [.alone arg plain] = [arg] := rfl

@[simp] theorem lone_valued {option value : String} (named : isValued option) :
    lone [.valued option value named] = [] := rfl

@[simp] theorem values_alone (name : String) {arg : String} (plain : ¬ isValued arg) :
    values name [.alone arg plain] = [] := rfl

@[simp] theorem values_valued (name : String) {option value : String} (named : isValued option) :
    values name [.valued option value named] = if option = name then [value] else [] := by
  by_cases h : option = name <;> simp [values, Group.value?, h]

@[simp] theorem inputs_valued {option value : String} (named : isValued option) :
    inputs [.valued option value named] = [] := rfl

theorem inputs_of_flag {arg : String} (plain : ¬ isValued arg) (hflag : arg ∈ Group.flags) :
    inputs [.alone arg plain] = [] := by
  have hnot : ∀ arg ∈ Group.flags, isInput arg = false := by decide
  simp [inputs, hnot arg hflag]

theorem isValued_iff {option : String} : isValued option ↔
    option = "--theme" ∨ option = "--format" ∨ option = "--out-dir" ∨ option = "--html" := by
  simp [isValued]

theorem Asked.unique (h : Asked gs r) (h' : Asked gs r') : r = r' := by
  obtain ⟨⟩ := r
  obtain ⟨⟩ := r'
  simp only [Request.mk.injEq]
  exact ⟨h.input.trans h'.input.symm, h.theme.trans h'.theme.symm, h.format.trans h'.format.symm,
    Bool.eq_iff_iff.mpr (h.native.trans h'.native.symm),
    Bool.eq_iff_iff.mpr (h.grid.trans h'.grid.symm),
    Bool.eq_iff_iff.mpr (h.header.trans h'.header.symm), h.outDir.trans h'.outDir.symm,
    h.html.trans h'.html.symm, Bool.eq_iff_iff.mpr (h.dot.trans h'.dot.symm)⟩

theorem asked_nothing : Asked [] {} := by
  constructor <;> simp [inputs, lone, values, lastFormat, AsksForTable, ImageFormat.standard]

/-! #### Options -/

section Options

variable (r : Request) (value : String)

theorem valued_theme : r.valued? "--theme" value =
    (Theme.ofName? value).map fun t => { r with theme := some t } := by
  simp only [Request.valued?]

theorem valued_format : r.valued? "--format" value =
    (ImageFormat.ofName? value).map fun f => { r with format := f } := by
  simp only [Request.valued?]

theorem valued_outDir : r.valued? "--out-dir" value = some { r with outDir := some value } := by
  simp only [Request.valued?]

theorem valued_html :
    r.valued? "--html" value = some { r with html := some value, grid := true } := by
  simp only [Request.valued?]

end Options

/-- An option with a value that it can have. -/
theorem Asked.valued (h : Asked gs r) {option value : String} (named : isValued option)
    (htake : r.valued? option value = some r') :
    (Group.valued option value named).Known ∧ Asked (gs ++ [.valued option value named]) r' := by
  rcases isValued_iff.mp named with rfl | rfl | rfl | rfl
  · rw [valued_theme] at htake
    obtain ⟨theme, htheme, rfl⟩ := Option.map_eq_some_iff.mp htake
    refine ⟨by simp [Group.Known, htheme], ?_⟩
    constructor <;> simp [h.input, h.format, h.native, h.grid, h.header, h.outDir, h.html, h.dot,
      htheme, lastFormat, AsksForTable]
  · rw [valued_format] at htake
    obtain ⟨format, hformat, rfl⟩ := Option.map_eq_some_iff.mp htake
    refine ⟨by simp [Group.Known, hformat], ?_⟩
    constructor <;> simp [h.input, h.theme, h.native, h.grid, h.header, h.outDir, h.html, h.dot,
      hformat, lastFormat, AsksForTable]
  · rw [valued_outDir] at htake
    cases htake
    refine ⟨by simp [Group.Known], ?_⟩
    constructor <;> simp [h.input, h.theme, h.format, h.native, h.grid, h.header, h.html, h.dot,
      lastFormat, AsksForTable]
  · rw [valued_html] at htake
    cases htake
    refine ⟨by simp [Group.Known], ?_⟩
    constructor <;> simp [h.input, h.theme, h.format, h.native, h.header, h.outDir, h.dot,
      lastFormat, AsksForTable]

theorem exists_valued {option value : String} (named : isValued option)
    (hknown : (Group.valued option value named).Known) (r : Request) :
    ∃ r', r.valued? option value = some r' := by
  rcases isValued_iff.mp named with rfl | rfl | rfl | rfl
  · obtain ⟨theme, htheme⟩ := Option.isSome_iff_exists.mp (hknown.1 rfl)
    exact ⟨_, by rw [valued_theme, htheme, Option.map_some]⟩
  · obtain ⟨format, hformat⟩ := Option.isSome_iff_exists.mp (hknown.2 rfl)
    exact ⟨_, by rw [valued_format, hformat, Option.map_some]⟩
  · exact ⟨_, valued_outDir r value⟩
  · exact ⟨_, valued_html r value⟩

/-! #### Flags and inputs -/

theorem flag_native (r : Request) : r.flag? "--native" = some { r with native := true } := by
  simp only [Request.flag?]

theorem flag_grid (r : Request) : r.flag? "--grid" = some { r with grid := true } := by
  simp only [Request.flag?]

theorem flag_header (r : Request) : r.flag? "--header" = some { r with header := true } := by
  simp only [Request.flag?]

theorem flag_dot (r : Request) : r.flag? "--dot" = some { r with dot := true } := by
  simp only [Request.flag?]

theorem flag_render (r : Request) : r.flag? "render" = some r := by
  simp only [Request.flag?]

theorem exists_flag (r : Request) {arg : String} (hflag : arg ∈ Group.flags) :
    ∃ r', r.flag? arg = some r' := by
  simp only [Group.flags, List.mem_cons, List.not_mem_nil, or_false] at hflag
  rcases hflag with rfl | rfl | rfl | rfl
  · exact ⟨_, flag_native r⟩
  · exact ⟨_, flag_grid r⟩
  · exact ⟨_, flag_header r⟩
  · exact ⟨_, flag_dot r⟩

theorem flag_eq_none (r : Request) {arg : String} (hflag : arg ∉ Group.flags)
    (hrender : arg ≠ "render") : r.flag? arg = none := by
  simp only [Group.flags, List.mem_cons, List.not_mem_nil, or_false, not_or] at hflag
  unfold Request.flag?
  split <;> simp_all

/-- A flag. -/
theorem Asked.flag (h : Asked gs r) {arg : String} (plain : ¬ isValued arg)
    (hflag : arg ∈ Group.flags) (htake : r.flag? arg = some r') :
    Asked (gs ++ [.alone arg plain]) r' := by
  have hinput := inputs_of_flag plain hflag
  simp only [Group.flags, List.mem_cons, List.not_mem_nil, or_false] at hflag
  rcases hflag with rfl | rfl | rfl | rfl
  · rw [flag_native] at htake
    cases htake
    constructor <;> simp [hinput, h.input, h.theme, h.format, h.grid, h.header, h.outDir, h.html,
      h.dot, lastFormat, AsksForTable]
  · rw [flag_grid] at htake
    cases htake
    constructor <;> simp [hinput, h.input, h.theme, h.format, h.native, h.header, h.outDir, h.html,
      h.dot, lastFormat, AsksForTable]
  · rw [flag_header] at htake
    cases htake
    constructor <;> simp [hinput, h.input, h.theme, h.format, h.native, h.grid, h.outDir, h.html,
      h.dot, lastFormat, AsksForTable]
  · rw [flag_dot] at htake
    cases htake
    constructor <;> simp [hinput, h.input, h.theme, h.format, h.native, h.grid, h.header, h.outDir,
      h.html, lastFormat, AsksForTable]

/-- An argument that is no flag leaves all alone but perhaps the input. -/
theorem Asked.other (h : Asked gs r) {arg : String} (plain : ¬ isValued arg)
    (hflag : arg ∉ Group.flags) {input : Option String}
    (hinput : input = (inputs (gs ++ [.alone arg plain])).head?) :
    Asked (gs ++ [.alone arg plain]) { r with input } := by
  simp only [Group.flags, List.mem_cons, List.not_mem_nil, or_false, not_or, eq_comm (a := arg)] at hflag
  constructor <;> simp [hinput, hflag, h.theme, h.format, h.native, h.grid, h.header, h.outDir,
    h.html, h.dot, lastFormat, AsksForTable]

theorem inputs_render (plain : ¬ isValued "render") : inputs [.alone "render" plain] = [] := by
  simp [inputs]

theorem inputs_alone {arg : String} (plain : ¬ isValued arg) (hrender : arg ≠ "render") :
    inputs [.alone arg plain] = if isInput arg then [arg] else [] := by
  by_cases h : isInput arg <;> simp [inputs, h, hrender]

/-- What an argument that is neither a flag nor the word `render` is taken for. -/
theorem takeGroup_other {arg : String} (plain : ¬ isValued arg) (hflag : arg ∉ Group.flags)
    (hrender : arg ≠ "render") : r.takeGroup (.alone arg plain) =
      if isInput arg && r.input.isNone then some { r with input := some arg } else none := by
  rw [Request.takeGroup, flag_eq_none r hflag hrender, Option.none_or, Request.input?]

/-! #### One step -/

/-- A group that is taken is known and is no second input, and is asked for then. -/
theorem Asked.takes (h : Asked gs r) (hone : (inputs gs).length ≤ 1)
    (htake : r.takeGroup g = some r') :
    g.Known ∧ (inputs (gs ++ [g])).length ≤ 1 ∧ Asked (gs ++ [g]) r' := by
  cases g with
  | valued option value named =>
    obtain ⟨hknown, hasked⟩ := h.valued named htake
    exact ⟨hknown, by simpa using hone, hasked⟩
  | alone arg plain =>
    by_cases hflag : arg ∈ Group.flags
    · obtain ⟨r'', hr''⟩ := exists_flag r hflag
      rw [Request.takeGroup, hr'', Option.some_or] at htake
      cases htake
      refine ⟨.inl hflag, ?_, h.flag plain hflag hr''⟩
      simpa [inputs_of_flag plain hflag] using hone
    by_cases hrender : arg = "render"
    · subst hrender
      rw [Request.takeGroup, flag_render, Option.some_or] at htake
      cases htake
      have hsame := inputs_render plain
      refine ⟨.inr (.inl rfl), by simpa [hsame] using hone, h.other plain hflag ?_⟩
      simp [hsame, h.input]
    · rw [takeGroup_other plain hflag hrender] at htake
      split at htake
      · next hinput =>
        cases htake
        obtain ⟨hinput, hnone⟩ := Bool.and_eq_true_iff.mp hinput
        have hfirst : inputs gs = [] := by
          rw [← List.head?_eq_none_iff, ← h.input]
          exact Option.isNone_iff_eq_none.mp hnone
        have hinputs : inputs (gs ++ [.alone arg plain]) = [arg] := by
          simp [hfirst, inputs_alone plain hrender, hinput]
        refine ⟨.inr (.inr hinput), by simp [hinputs], h.other plain hflag ?_⟩
        rw [hinputs, List.head?_cons]
      · cases htake

/-- A known group that is no second input is taken. -/
theorem Asked.exists_takes (h : Asked gs r) (hknown : g.Known)
    (hone : (inputs (gs ++ [g])).length ≤ 1) : ∃ r', r.takeGroup g = some r' := by
  cases g with
  | valued option value named => exact exists_valued named hknown r
  | alone arg plain =>
    by_cases hflag : arg ∈ Group.flags
    · obtain ⟨r', hr'⟩ := exists_flag r hflag
      exact ⟨r', by rw [Request.takeGroup, hr', Option.some_or]⟩
    by_cases hrender : arg = "render"
    · subst hrender
      exact ⟨r, by rw [Request.takeGroup, flag_render, Option.some_or]⟩
    · have hinput : isInput arg := (hknown.resolve_left hflag).resolve_left hrender
      have hfirst : inputs gs = [] := by
        simpa [inputs_alone plain hrender, hinput] using hone
      have hnone : r.input = none := by rw [h.input, hfirst, List.head?_nil]
      rw [takeGroup_other plain hflag hrender]
      exact ⟨_, if_pos (by rw [hinput, hnone]; rfl)⟩

/-! ### Whole lists of arguments -/

theorem asked_of_taken (htake : gs.foldlM Request.takeGroup {} = some r) :
    (∀ g ∈ gs, g.Known) ∧ (inputs gs).length ≤ 1 ∧ Asked gs r := by
  induction gs using List.reverseRecOn generalizing r with
  | nil =>
    cases htake
    exact ⟨by simp, by simp [inputs, lone], asked_nothing⟩
  | append_singleton gs g ih =>
    rw [List.foldlM_append] at htake
    obtain ⟨before, hbefore, hlast⟩ := Option.bind_eq_some_iff.mp htake
    simp only [List.foldlM_cons, List.foldlM_nil, Option.pure_def, Option.bind_eq_bind,
      Option.bind_fun_some] at hlast
    obtain ⟨hknown, hone, hasked⟩ := ih hbefore
    obtain ⟨hg, hone, hasked⟩ := hasked.takes hone hlast
    refine ⟨fun g' hg' => ?_, hone, hasked⟩
    rcases List.mem_append.mp hg' with hg' | hg'
    · exact hknown g' hg'
    · rwa [List.mem_singleton.mp hg']

theorem taken_of_known (hknown : ∀ g ∈ gs, g.Known) (hone : (inputs gs).length ≤ 1) :
    ∃ r, gs.foldlM Request.takeGroup {} = some r := by
  induction gs using List.reverseRecOn with
  | nil => exact ⟨{}, rfl⟩
  | append_singleton gs g ih =>
    have hfewer : (inputs gs).length ≤ 1 := by
      rw [inputs_append, List.length_append] at hone
      omega
    obtain ⟨before, hbefore⟩ := ih (fun g' hg' => hknown g' (List.mem_append_left _ hg')) hfewer
    obtain ⟨r, hr⟩ := (asked_of_taken hbefore).2.2.exists_takes
      (hknown g (List.mem_append_right _ (List.mem_singleton_self g))) hone
    refine ⟨r, ?_⟩
    rw [List.foldlM_append, hbefore]
    simpa using hr

/-- Asking for help is not known. -/
theorem not_mem_lone_of_known (hknown : ∀ g ∈ gs, g.Known) {arg : String} (hflag : arg ∉ Group.flags)
    (hrender : arg ≠ "render") (hinput : isInput arg = false) : arg ∉ lone gs := by
  intro hmem
  obtain ⟨g, hg, halone⟩ := List.mem_filterMap.mp hmem
  cases g with
  | valued option value named => cases halone
  | alone arg' plain =>
    cases halone
    rcases hknown _ hg with h | h | h
    · exact hflag h
    · exact hrender h
    · rw [hinput] at h
      cases h

theorem Asked.fits_iff (h : Asked gs r) : r.fits ↔ (AsksForTable gs → lastFormat gs = .svg) := by
  rw [Request.fits, Bool.or_eq_true, decide_eq_true_iff, ← h.grid, ← h.format]
  cases r.grid <;> simp

/-- What some arguments ask for. -/
theorem parse_eq_some_iff (hgs : groups? args = some gs) :
    parse args = some r ↔ Accepted gs ∧ Asked gs r := by
  rw [parse, takeAll_eq, hgs, Option.bind_some]
  constructor
  · intro hparse
    obtain ⟨taken, htaken, hfits⟩ := Option.bind_eq_some_iff.mp hparse
    obtain ⟨hknown, hone, hasked⟩ := asked_of_taken htaken
    split at hfits
    · next h =>
      cases hfits
      have hhelp : "--help" ∉ lone gs :=
        not_mem_lone_of_known hknown (by decide) (by decide) (by decide)
      have hh : "-h" ∉ lone gs := not_mem_lone_of_known hknown (by decide) (by decide) (by decide)
      exact ⟨⟨hknown, hone, ⟨hhelp, hh⟩, hasked.fits_iff.mp h⟩, hasked⟩
    · cases hfits
  · rintro ⟨haccepted, hasked⟩
    obtain ⟨taken, htaken⟩ := taken_of_known haccepted.known haccepted.oneInput
    obtain rfl := (asked_of_taken htaken).2.2.unique hasked
    rw [htaken]
    exact if_pos (hasked.fits_iff.mpr haccepted.table)

theorem isSome_parse_iff (hgs : groups? args = some gs) : (parse args).isSome ↔ Accepted gs := by
  rw [Option.isSome_iff_exists]
  constructor
  · rintro ⟨r, hr⟩
    exact ((parse_eq_some_iff hgs).mp hr).1
  · intro haccepted
    obtain ⟨r, hr⟩ := taken_of_known haccepted.known haccepted.oneInput
    exact ⟨r, (parse_eq_some_iff hgs).mpr ⟨haccepted, (asked_of_taken hr).2.2⟩⟩

/-! ### Other orders -/

/-- The same groups, with the values of every option in the same order. -/
structure Rearranged (hs gs : List Group) : Prop where
  perm : hs.Perm gs
  values : ∀ name, values name hs = values name gs

namespace Rearranged

theorem symm (h : Rearranged hs gs) : Rearranged gs hs := ⟨h.perm.symm, fun name => (h.values name).symm⟩

theorem mem_lone (h : Rearranged hs gs) (arg : String) : arg ∈ lone hs ↔ arg ∈ lone gs :=
  (h.perm.filterMap _).mem_iff

theorem inputs_perm (h : Rearranged hs gs) : (inputs hs).Perm (inputs gs) :=
  (h.perm.filterMap _).filter _

theorem lastFormat_eq (h : Rearranged hs gs) : lastFormat hs = lastFormat gs := by
  rw [lastFormat, h.values, lastFormat]

theorem asksForTable_iff (h : Rearranged hs gs) : AsksForTable hs ↔ AsksForTable gs := by
  rw [AsksForTable, h.mem_lone, h.values, AsksForTable]

theorem accepted (h : Rearranged hs gs) (ha : Accepted gs) : Accepted hs where
  known g hg := ha.known g (h.perm.mem_iff.mp hg)
  oneInput := h.inputs_perm.length_eq ▸ ha.oneInput
  noHelp := by rw [h.mem_lone, h.mem_lone]; exact ha.noHelp
  table := by rw [h.asksForTable_iff, h.lastFormat_eq]; exact ha.table

/-- A single input is the first one in every order. -/
theorem head_inputs (h : Rearranged hs gs) (hone : (inputs gs).length ≤ 1) :
    (inputs hs).head? = (inputs gs).head? := by
  have hperm := h.inputs_perm
  cases hgs : inputs gs with
  | nil => rw [hgs] at hperm; rw [List.perm_nil.mp hperm]
  | cons arg rest =>
    rw [hgs] at hperm hone
    obtain rfl : rest = [] := by simpa using hone
    rw [List.perm_singleton.mp hperm]

theorem asked (h : Rearranged hs gs) (hone : (inputs gs).length ≤ 1) (ha : Asked gs r) :
    Asked hs r where
  input := ha.input.trans (h.head_inputs hone).symm
  theme := by rw [h.values]; exact ha.theme
  format := ha.format.trans h.lastFormat_eq.symm
  native := by rw [h.mem_lone]; exact ha.native
  grid := by rw [h.asksForTable_iff]; exact ha.grid
  header := by rw [h.mem_lone]; exact ha.header
  outDir := by rw [h.values]; exact ha.outDir
  html := by rw [h.values]; exact ha.html
  dot := by rw [h.mem_lone]; exact ha.dot

theorem parse_eq (h : Rearranged hs gs) (hgs : groups? args = some gs) :
    parse (hs.flatMap Group.tokens) = parse args := by
  refine Option.ext fun r => ?_
  rw [parse_eq_some_iff (groups_tokens hs), parse_eq_some_iff hgs]
  constructor
  · rintro ⟨haccepted, hasked⟩
    exact ⟨h.symm.accepted haccepted, h.symm.asked haccepted.oneInput hasked⟩
  · rintro ⟨haccepted, hasked⟩
    exact ⟨h.accepted haccepted, h.asked haccepted.oneInput hasked⟩

end Rearranged

/-- An option without a value can not be used, whatever comes before it. -/
theorem parse_of_no_groups (hgs : groups? args = none) : parse args = none := by
  rw [parse, takeAll_eq, hgs]
  rfl

/-- The last format counts, and a table is made of images in that format. -/
def tableGroups : List Group :=
  [.alone "--grid" (by decide), .valued "--format" "png" (by decide), .alone "shop.yaml" (by decide),
    .valued "--theme" "Light" (by decide), .alone "render" (by decide),
    .valued "--format" "svg" (by decide)]

/-- The same with the options first. -/
def tableTurned : List Group :=
  [.valued "--theme" "Light" (by decide), .valued "--format" "png" (by decide),
    .valued "--format" "svg" (by decide), .alone "render" (by decide),
    .alone "shop.yaml" (by decide), .alone "--grid" (by decide)]

end Schematic.CommandLine
