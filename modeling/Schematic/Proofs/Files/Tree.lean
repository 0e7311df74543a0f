import Mathlib.Data.List.Basic
import Schematic.Machine

/-! What writing a file does to the others. Whatever is written, directories stay directories, a file
    elsewhere keeps its contents, and no device comes up; and a path goes on leading where it led. So a
    file that was written can be read until something is written in its own place. Files of different
    names in one directory have places of their own. -/

namespace Schematic

namespace FileTree

/-- One part further along a path, going by the part alone. -/
def follow (l : Location) (part : String) : Location :=
  if part = "." then l else if part = ".." then l.dropLast else l ++ [part]

/-- `t'` is `t` with more directories, and with other contents in files at some spots. -/
structure Saves (spot : Location → Prop) (t t' : FileTree) : Prop where
  find? : ∀ {l e}, t.find? l = some e → ¬ spot l → t'.find? l = some e
  directory : ∀ {l}, t.find? l = some .directory → t'.find? l = some .directory
  /-- What is new is a directory or a file. -/
  new : ∀ {l e}, t'.find? l = some e →
    t.find? l = some e ∨ e = .directory ∨ ∃ bytes executable, e = .file bytes executable

/-- What takes everything and holds nothing. -/
def HasDevice (t : FileTree) (l : Location) : Prop :=
  t.find? l = some .sink ∨ ∃ tool, t.find? l = some (.tool tool)

/-- The path leads to a file with these contents. -/
def Holds (t : FileTree) (home : Location) (path : String) (bytes : ByteArray) : Prop :=
  ∃ l part executable, t.approach home path = .ok (l, some part) ∧
    t.step l part = .ok (place home path, .file bytes executable) ∧ ¬ endsInSlash path

variable {t t' t'' : FileTree} {spot spot' : Location → Prop} {home : Location} {path : String}

/-! ### Entries -/

theorem lookup_filter_ne {l l' : Location} (hne : l' ≠ l) : ∀ es : List (Location × Entry),
    (es.filter (·.1 ≠ l)).lookup l' = es.lookup l'
  | [] => rfl
  | (k, e) :: es => by
    by_cases hk : k = l
    · subst hk
      rw [List.filter_cons_of_neg (by simp), lookup_filter_ne hne es, List.lookup_cons,
        beq_false_of_ne hne]
    · rw [List.filter_cons_of_pos (by simp [hk]), List.lookup_cons, List.lookup_cons,
        lookup_filter_ne hne es]

theorem find?_set {l : Location} (hl : l ≠ []) (e : Entry) (l' : Location) :
    (t.set l e).find? l' = if l' = l then some e else t.find? l' := by
  rw [find?, set, find?]
  by_cases hroot : l' = []
  · subst hroot
    rw [if_pos rfl, if_pos rfl, if_neg hl.symm]
  · rw [if_neg hroot, if_neg hroot, List.lookup_cons]
    by_cases hl' : l' = l
    · subst hl'
      rw [if_pos rfl, beq_self_eq_true]
    · rw [if_neg hl', beq_false_of_ne hl', lookup_filter_ne hl']

namespace Saves

theorem refl (t : FileTree) : Saves spot t t := ⟨fun h _ => h, id, .inl⟩

theorem trans (h : Saves spot t t') (h' : Saves spot t' t'') : Saves spot t t'' where
  find? he hl := h'.find? (h.find? he hl) hl
  directory hl := h'.directory (h.directory hl)
  new he := by
    rcases h'.new he with he | he
    · exact h.new he
    · exact .inr he

theorem mono (h : Saves spot t t') (hspot : ∀ l, spot l → spot' l) : Saves spot' t t' :=
  { h with find? := fun he hl => h.find? he fun hs => hl (hspot _ hs) }

theorem hasDevice (h : Saves spot t t') {l : Location} (hl : t'.HasDevice l) : t.HasDevice l := by
  rcases hl with hl | ⟨tool, hl⟩
  · rcases h.new hl with he | he | ⟨_, _, he⟩
    · exact .inl he
    · cases he
    · cases he
  · rcases h.new hl with he | he | ⟨_, _, he⟩
    · exact .inr ⟨tool, he⟩
    · cases he
    · cases he

/-- A new directory. -/
theorem directory_set {l : Location} (hl : l ≠ []) (hfree : t.find? l = none) :
    Saves spot t (t.set l .directory) := by
  refine ⟨fun {k e} he _ => ?_, fun {k} he => ?_, fun {k e} he => ?_⟩
  · rw [find?_set hl, if_neg, he]
    rintro rfl
    rw [hfree] at he
    cases he
  · rw [find?_set hl, he]
    split <;> rfl
  · rw [find?_set hl] at he
    split at he
    · cases he
      exact .inr (.inl rfl)
    · exact .inl he

/-- A file with other contents, or a new one. -/
theorem file_set {l : Location} (hl : l ≠ []) (hfile : t.find? l ≠ some .directory)
    (bytes : ByteArray) (executable : Bool) :
    Saves (· = l) t (t.set l (.file bytes executable)) := by
  refine ⟨fun {k e} he hk => ?_, fun {k} he => ?_, fun {k e} he => ?_⟩
  · rw [find?_set hl, if_neg hk, he]
  · rw [find?_set hl, if_neg, he]
    rintro rfl
    exact hfile he
  · rw [find?_set hl] at he
    split at he
    · cases he
      exact .inr (.inr ⟨_, _, rfl⟩)
    · exact .inl he

end Saves

/-! ### Following paths -/

/-- All that a step can come to. -/
theorem step_eq_ok {at_ l : Location} {part : String} {e : Entry} :
    t.step at_ part = .ok (l, e) ↔ l = follow at_ part ∧
      ((part = "." ∨ part = "..") ∧ e = .directory ∨
        part ≠ "." ∧ part ≠ ".." ∧ part.utf8ByteSize ≤ maxName ∧ t.find? l = some e) := by
  rw [step, follow]
  by_cases hdot : part = "."
  · simp [hdot, eq_comm]
  by_cases hdots : part = ".."
  · simp [hdots, eq_comm]
  rw [if_neg hdot, if_neg hdots, if_neg hdot, if_neg hdots]
  by_cases hlong : part.utf8ByteSize > maxName
  · rw [if_pos hlong]
    simp [hdot, hdots, Nat.not_le.mpr hlong]
  · rw [if_neg hlong]
    simp only [hdot, hdots, Nat.not_lt.mp hlong, or_self, false_and, false_or, ne_eq,
      not_false_eq_true, true_and]
    cases hfind : t.find? (at_ ++ [part]) with
    | none =>
      refine ⟨fun h => by simp at h, ?_⟩
      rintro ⟨rfl, he⟩
      rw [hfind] at he
      cases he
    | some e' =>
      simp only [Except.ok.injEq, Prod.mk.injEq]
      constructor
      · rintro ⟨rfl, rfl⟩
        exact ⟨rfl, hfind⟩
      · rintro ⟨rfl, he⟩
        rw [hfind] at he
        exact ⟨rfl, Option.some.inj he⟩

/-- What is not found can be made. -/
theorem free_of_step {at_ : Location} {part : String} (h : t.step at_ part = .error .notFound) :
    part ≠ "." ∧ part ≠ ".." ∧ part.utf8ByteSize ≤ maxName ∧ t.find? (at_ ++ [part]) = none := by
  rw [step] at h
  split at h
  · cases h
  next hdot =>
  split at h
  · cases h
  next hdots =>
  split at h
  · cases h
  next hshort =>
  cases hfind : t.find? (at_ ++ [part]) with
  | none => exact ⟨hdot, hdots, Nat.not_lt.mp hshort, rfl⟩
  | some e =>
    rw [hfind] at h
    cases h

theorem descend_eq : ∀ {ps : List String} {at_ l : Location}, t.descend at_ ps = .ok l →
    l = ps.foldl follow at_
  | [], _, _, h => by cases h; rfl
  | part :: ps, at_, l, h => by
    rw [descend] at h
    split at h
    · next k hk =>
      rw [List.foldl_cons, ← (step_eq_ok.mp hk).1]
      exact descend_eq h
    · cases h
    · cases h

theorem approach_eq : t.approach home path =
    match pathError? path with
    | some e => .error e
    | none => (t.descend (start home path) (parts path).dropLast).map (·, (parts path).getLast?) := by
  rw [approach]
  cases pathError? path with
  | some e => rfl
  | none =>
    cases hl : t.descend (start home path) (parts path).dropLast <;>
      simp [hl, bind, Except.bind, pure, Except.pure, Except.map]

theorem approach_eq_ok {l : Location} {part : Option String} :
    t.approach home path = .ok (l, part) ↔ pathError? path = none ∧
      t.descend (start home path) (parts path).dropLast = .ok l ∧ (parts path).getLast? = part := by
  rw [approach_eq]
  cases pathError? path with
  | some e => simp
  | none => cases t.descend (start home path) (parts path).dropLast <;> simp [Except.map]

/-- The place of a path is one step from where the approach ends. -/
theorem place_of_approach {l : Location} {part : String}
    (h : t.approach home path = .ok (l, some part)) : place home path = follow l part := by
  obtain ⟨-, hdescend, hlast⟩ := approach_eq_ok.mp h
  have hparts : parts path = (parts path).dropLast ++ [part] :=
    (List.dropLast_append_getLast? part hlast).symm
  have hplace : place home path = (parts path).foldl follow (start home path) := rfl
  rw [hplace, hparts, List.foldl_append, ← descend_eq hdescend]
  rfl

namespace Saves

theorem step (h : Saves spot t t') {at_ l : Location} {part : String} {e : Entry}
    (hstep : t.step at_ part = .ok (l, e)) (hl : e = .directory ∨ ¬ spot l) :
    t'.step at_ part = .ok (l, e) := by
  obtain ⟨hfollow, ⟨hdot, he⟩ | ⟨hdot, hdots, hshort, he⟩⟩ := step_eq_ok.mp hstep
  · exact step_eq_ok.mpr ⟨hfollow, .inl ⟨hdot, he⟩⟩
  · refine step_eq_ok.mpr ⟨hfollow, .inr ⟨hdot, hdots, hshort, ?_⟩⟩
    rcases hl with rfl | hl
    · exact h.directory he
    · exact h.find? he hl

theorem descend (h : Saves spot t t') : ∀ {ps : List String} {at_ l : Location},
    t.descend at_ ps = .ok l → t'.descend at_ ps = .ok l
  | [], _, _, hl => hl
  | part :: ps, at_, l, hl => by
    rw [FileTree.descend] at hl ⊢
    split at hl
    · next k hk =>
      rw [h.step hk (.inl rfl)]
      exact h.descend hl
    · cases hl
    · cases hl

theorem approach (h : Saves spot t t') {l : Location} {part : Option String}
    (hl : t.approach home path = .ok (l, part)) : t'.approach home path = .ok (l, part) := by
  obtain ⟨herror, hdescend, hlast⟩ := approach_eq_ok.mp hl
  exact approach_eq_ok.mpr ⟨herror, h.descend hdescend, hlast⟩

/-- A file elsewhere goes on holding what it holds. -/
theorem holds (h : Saves spot t t') {bytes : ByteArray} (hb : t.Holds home path bytes)
    (hspot : ¬ spot (place home path)) : t'.Holds home path bytes := by
  obtain ⟨l, part, executable, happroach, hstep, hslash⟩ := hb
  exact ⟨l, part, executable, h.approach happroach, h.step hstep (.inr hspot), hslash⟩

end Saves

/-- What a file holds is read from it. -/
theorem Holds.read {bytes : ByteArray} (h : t.Holds home path bytes) :
    t.read home path = .ok bytes := by
  obtain ⟨l, part, executable, happroach, hstep, hslash⟩ := h
  simp only [FileTree.read, locate, happroach, hstep, hslash, bind, Except.bind, pure, Except.pure]
  rfl

/-! ### Files in a directory -/

/-- A part of a path that leads one step down. -/
structure IsName (part : String) : Prop where
  no_slash : '/' ∉ part.toList
  ne_empty : part ≠ ""
  ne_dot : part ≠ "."
  ne_dots : part ≠ ".."

theorem parts_eq (path : String) : parts path =
    ((path.toList.splitOnP (· = '/')).filter (· ≠ [])).map String.ofList := by
  rw [parts]
  congr 2
  induction path.toList with
  | nil => rfl
  | cons c cs ih =>
    rw [List.foldr_cons, ih, List.splitOnP_cons_eq_if_modifyHead]
    by_cases hc : c = '/'
    · simp [hc]
    · rw [if_neg hc, if_neg (by simpa using hc)]
      cases hparts : List.splitOnP (· = '/') cs with
      | nil => exact (List.splitOnP_ne_nil _ _ hparts).elim
      | cons part rest => rfl

theorem parts_slash (path rest : String) : parts (path ++ "/" ++ rest) = parts path ++ parts rest := by
  have hslash : (path ++ "/" ++ rest).toList = path.toList ++ '/' :: rest.toList := by simp
  rw [parts_eq, parts_eq, parts_eq, hslash, List.splitOnP_append_cons _ _ (by simp),
    List.filter_append, List.map_append]

theorem IsName.parts {name : String} (h : IsName name) : parts name = [name] := by
  have hslash : ∀ c ∈ name.toList, (decide (c = '/')) = false := by
    rintro c hc
    rw [decide_eq_false_iff_not]
    rintro rfl
    exact h.no_slash hc
  have hname : name.toList ≠ [] := by simpa using h.ne_empty
  rw [parts_eq, List.splitOnP_eq_singleton hslash]
  simp [hname]

/-- The directory is missing, or ends in a slash, or a slash is put behind it. -/
theorem join_cases {name : String} (h : IsName name) (dir : String) :
    dir = "" ∧ Path.join dir name = name ∨
      ∃ d, (dir = d ++ "/" ∨ dir = d ∧ d ≠ "") ∧ Path.join dir name = d ++ "/" ++ name := by
  have hname : name.toList.head? ≠ some '/' := fun hslash =>
    h.no_slash (List.mem_of_mem_head? hslash)
  rw [Path.join, if_neg hname]
  cases hlast : dir.toList.getLast? with
  | none =>
    have hdir : dir = "" := by simpa using hlast
    rw [hdir]
    exact .inl ⟨rfl, String.empty_append⟩
  | some c =>
    rw [Option.all_some]
    by_cases hc : c = '/'
    · subst hc
      have hdir : dir = String.ofList dir.toList.dropLast ++ "/" := by
        rw [← String.toList_inj, String.toList_append, String.toList_ofList]
        exact (List.dropLast_append_getLast? _ hlast).symm
      refine .inr ⟨_, .inl hdir, ?_⟩
      rw [if_pos (by simp), ← hdir]
    · refine .inr ⟨dir, .inr ⟨rfl, ?_⟩, by rw [if_neg (by simpa using hc)]⟩
      rintro rfl
      simp at hlast

/-- A file in a directory is one step further than that. -/
theorem place_join {name : String} (h : IsName name) (dir : String) :
    place home (Path.join dir name) = place home dir ++ [name] := by
  have hplace : ∀ path, place home path = (parts path).foldl follow (start home path) := fun _ => rfl
  have hfollow : ∀ l, follow l name = l ++ [name] := fun l => by
    rw [follow, if_neg h.ne_dot, if_neg h.ne_dots]
  have hempty : parts "" = [] := rfl
  rw [hplace, hplace]
  obtain ⟨rfl, hjoin⟩ | ⟨d, hdir, hjoin⟩ := join_cases h dir
  · have hstart : start home name = home := if_neg fun hslash =>
      h.no_slash (List.mem_of_mem_head? hslash)
    rw [hjoin, h.parts, hstart, hempty]
    exact hfollow home
  · have hparts : parts dir = parts d := by
      rcases hdir with rfl | ⟨rfl, -⟩
      · rw [← String.append_empty (s := d ++ "/"), parts_slash, hempty, List.append_nil]
      · rfl
    have hstart : start home (d ++ "/" ++ name) = start home dir := by
      rcases hdir with rfl | ⟨rfl, hd⟩
      · cases hchars : d.toList <;> simp [start, hchars]
      · cases hchars : dir.toList with
        | nil => exact (hd (by simpa using hchars)).elim
        | cons c cs => simp [start, hchars]
    rw [hjoin, parts_slash, h.parts, List.foldl_append, hparts, hstart]
    exact hfollow _

/-! ### Writing -/

theorem ok_of_bind {α β : Type} {e : Except SystemError α} {f : α → Except SystemError β} {b : β}
    (h : e >>= f = .ok b) : ∃ a, e = .ok a ∧ f a = .ok b := by
  cases e with
  | error e => cases h
  | ok a => exact ⟨a, rfl, h⟩

/-- A file at the end of a path, where no directory is, holds its contents. -/
theorem holds_set {l : Location} {part : String} (happroach : t.approach home path = .ok (l, some part))
    (hpart : part ≠ "." ∧ part ≠ ".." ∧ part.utf8ByteSize ≤ maxName) (hslash : ¬ endsInSlash path)
    (hfree : t.find? (l ++ [part]) ≠ some .directory) (bytes : ByteArray) (executable : Bool) :
    Saves (· = place home path) t (t.set (l ++ [part]) (.file bytes executable)) ∧
      (t.set (l ++ [part]) (.file bytes executable)).Holds home path bytes := by
  obtain ⟨hdot, hdots, hshort⟩ := hpart
  have hroot : l ++ [part] ≠ [] := by simp
  have hfollow : follow l part = l ++ [part] := by rw [follow, if_neg hdot, if_neg hdots]
  have hplace := (place_of_approach happroach).trans hfollow
  have hsaves := Saves.file_set hroot hfree bytes executable
  rw [hplace]
  refine ⟨hsaves, l, part, executable, hsaves.approach happroach, ?_, hslash⟩
  rw [hplace]
  exact step_eq_ok.mpr ⟨hfollow.symm, .inr ⟨hdot, hdots, hshort, by rw [find?_set hroot, if_pos rfl]⟩⟩

/-- A file that could be written holds what was written, unless it is a device. -/
theorem write_eq_ok {bytes : ByteArray} (h : t.write home path bytes = .ok t') :
    Saves (· = place home path) t t' ∧
      (t.HasDevice (place home path) ∨ t'.Holds home path bytes) := by
  rw [write, update] at h
  obtain ⟨⟨l, part⟩, happroach, h⟩ := ok_of_bind h
  cases part with
  | none => cases h
  | some part =>
    simp only at h
    split at h
    · cases h
    · next k old executable hstep =>
      obtain ⟨rfl, ⟨-, hfile⟩ | ⟨hdot, hdots, hshort, hfile⟩⟩ := step_eq_ok.mp hstep
      · cases hfile
      rw [follow, if_neg hdot, if_neg hdots] at h hfile
      split at h
      · cases h
      · next hslash =>
        cases h
        have hset := holds_set happroach ⟨hdot, hdots, hshort⟩ hslash (by rw [hfile]; simp) bytes
          executable
        exact ⟨hset.1, .inr hset.2⟩
    · next e hdirectory hfile hstep =>
      cases h
      obtain ⟨k, e⟩ := e
      obtain ⟨rfl, ⟨-, rfl⟩ | ⟨-, -, -, hfind⟩⟩ := step_eq_ok.mp hstep
      · exact (hdirectory _ rfl).elim
      rw [← place_of_approach happroach] at hfind
      refine ⟨.refl t, .inl ?_⟩
      cases e with
      | directory => exact (hdirectory _ rfl).elim
      | file bytes executable => exact (hfile _ _ _ rfl).elim
      | sink => exact .inl hfind
      | tool tool => exact .inr ⟨tool, hfind⟩
    · next hstep =>
      obtain ⟨hdot, hdots, hshort, hnone⟩ := free_of_step hstep
      split at h
      · cases h
      · next hslash =>
        cases h
        have hset := holds_set happroach ⟨hdot, hdots, hshort⟩ hslash (by rw [hnone]; simp) bytes
          false
        exact ⟨hset.1, .inr hset.2⟩
    · cases h

theorem saves_makeDirectory (h : t.makeDirectory home path = .ok t') : Saves spot t t' := by
  rw [makeDirectory] at h
  obtain ⟨⟨l, part⟩, -, h⟩ := ok_of_bind h
  cases part with
  | none => cases h
  | some part =>
    simp only at h
    split at h
    · cases h
    · next hstep =>
      cases h
      exact .directory_set (by simp) (free_of_step hstep).2.2.2
    · cases h

/-- A directory that is there is left as it is. -/
theorem eq_of_keep {e : SystemError} (h : (if t.isDirectory home path then pure t else throw e) =
    (.ok t' : Except SystemError FileTree)) : t' = t := by
  split at h
  · cases h; rfl
  · cases h

theorem saves_makeDirectories : ∀ {fuel : Nat} {path : String} {t t' : FileTree},
    t.makeDirectories home fuel path = .ok t' → Saves spot t t'
  | 0, _, _, _, h => by cases h
  | fuel + 1, path, t, t', h => by
    rw [makeDirectories] at h
    split at h
    · cases h
      exact .refl t
    split at h
    · next hmade =>
      cases h
      exact saves_makeDirectory hmade
    · split at h
      · next above _ =>
        obtain ⟨r, hr, h⟩ := ok_of_bind h
        have habove := saves_makeDirectories hr
        split at h
        · next hmade =>
          cases h
          exact habove.trans (saves_makeDirectory hmade)
        · rw [eq_of_keep h]
          exact habove
      · cases h
    · rw [eq_of_keep h]
      exact .refl t

end FileTree

/-! ### The machine -/

namespace Machine

variable {m m' : Machine} {path : String}

theorem makeRoom_eq_ok (spot : Location → Prop) (h : m.makeRoom path = .ok m') :
    m'.home = m.home ∧ FileTree.Saves spot m.files m'.files := by
  have hsame : (.ok m : Except Failure Machine) = .ok m' →
      m'.home = m.home ∧ FileTree.Saves spot m.files m'.files := by
    rintro ⟨⟩
    exact ⟨rfl, .refl _⟩
  rw [makeRoom] at h
  split at h
  · exact hsame h
  · exact hsame h
  · split at h
    · next r hr =>
      cases h
      rw [makeDirectories] at hr
      obtain ⟨files, hfiles, hr⟩ := FileTree.ok_of_bind hr
      cases hr
      exact ⟨rfl, FileTree.saves_makeDirectories hfiles⟩
    · cases h

/-- What saving a file does, whether it comes to an end or not. -/
theorem save_saves (m : Machine) (path : String) (bytes : ByteArray) :
    (m.save path bytes).2.home = m.home ∧
    FileTree.Saves (· = FileTree.place m.home path) m.files (m.save path bytes).2.files ∧
      ((m.save path bytes).1 = .ok () → m.files.HasDevice (FileTree.place m.home path) ∨
        (m.save path bytes).2.files.Holds m.home path bytes) := by
  rw [save]
  cases hroom : m.makeRoom path with
  | error e => exact ⟨rfl, .refl _, fun h => by cases h⟩
  | ok r =>
    obtain ⟨hhome, hsaves⟩ := makeRoom_eq_ok (· = FileTree.place m.home path) hroom
    simp only
    cases hwrite : r.write path bytes with
    | error e => exact ⟨hhome, hsaves, fun h => by cases h⟩
    | ok r' =>
      rw [write] at hwrite
      obtain ⟨files, hfiles, hr⟩ := FileTree.ok_of_bind hwrite
      cases hr
      obtain ⟨hwritten, hholds⟩ := FileTree.write_eq_ok hfiles
      rw [hhome] at hwritten hholds
      exact ⟨hhome, hsaves.trans hwritten, fun _ => hholds.imp_left hsaves.hasDevice⟩

end Machine

end Schematic
