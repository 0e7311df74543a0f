import Schematic.Document.Declaration

/-! A system is drawn the same whatever was drawn before it. Making a system takes a number of the
    counter, and nothing else of the session; but no drawing shows the counter, nor the number that
    the system got. So of the systems of a document each can be drawn by itself. -/

namespace Schematic

/-- The session with its counter put elsewhere. -/
def Session.withCounter (s : Session) (c : Counter) : Session := { s with counter := c }

variable {s : Session} (c : Counter)

theorem Session.ancestorsUpTo_withCounter : ∀ (bound : Nat) (n : Node),
    (s.withCounter c).ancestorsUpTo bound n = s.ancestorsUpTo bound n
  | 0, _ => rfl
  | bound + 1, n => by
    have ho : (s.withCounter c).outer? n = s.outer? n := rfl
    rw [ancestorsUpTo, ancestorsUpTo, ho]
    cases s.outer? n with
    | none => rfl
    | some o => simp only [ancestorsUpTo_withCounter bound o]

/-! ### Systems -/

namespace System

theorem register_withCounter (sys : System) (n : Node) :
    sys.register (s.withCounter c) n = sys.register s n := by
  have hancestors : (s.withCounter c).ancestors n = s.ancestors n :=
    Session.ancestorsUpTo_withCounter c _ n
  simp only [register, Session.outermost, hancestors]

theorem addLink_withCounter (sys : System) (l : LinkKey) :
    sys.addLink (s.withCounter c) l = sys.addLink s l := by
  have hlink : (s.withCounter c).link? l = s.link? l := rfl
  simp only [addLink, hlink, register_withCounter]

theorem addChain_withCounter (sys : System) (l : LinkKey) :
    sys.addChain (s.withCounter c) l = sys.addChain s l := by
  have hlink : (s.withCounter c).link? l = s.link? l := rfl
  have hchain : ∀ k, (s.withCounter c).chain k = s.chain k := fun _ => rfl
  simp only [addChain, hlink, hchain, addLink_withCounter]

theorem is_withCounter (sys : System) (ls : List LinkKey) :
    sys.is (s.withCounter c) ls = sys.is s ls := by
  simp only [is, addChain_withCounter]

theorem contains_withCounter (sys : System) (ns : List Node) :
    sys.contains (s.withCounter c) ns = sys.contains s ns := by
  simp only [contains, register_withCounter]

/-- The system with another number, another name and another restriction. -/
def relabel (ident : Ident) (name : String) (only : Option (List String)) (sys : System) : System :=
  { sys with ident, name, only }

variable (ident : Ident) (name : String) (only : Option (List String))

theorem addLink_relabel (s : Session) (sys : System) (l : LinkKey) :
    (sys.relabel ident name only).addLink s l = (sys.addLink s l).relabel ident name only := by
  simp only [addLink]
  cases s.link? l <;> rfl

theorem addChain_relabel (s : Session) (sys : System) (l : LinkKey) :
    (sys.relabel ident name only).addChain s l = (sys.addChain s l).relabel ident name only := by
  simp only [addChain]
  cases s.link? l with
  | none => rfl
  | some link =>
    exact List.foldl_hom (relabel ident name only) fun sys l =>
      addLink_relabel ident name only s sys l

theorem is_relabel (s : Session) (sys : System) (ls : List LinkKey) :
    (sys.relabel ident name only).is s ls = (sys.is s ls).relabel ident name only :=
  List.foldl_hom (relabel ident name only) fun sys l => addChain_relabel ident name only s sys l

theorem contains_relabel (s : Session) (sys : System) (ns : List Node) :
    (sys.relabel ident name only).contains s ns = (sys.contains s ns).relabel ident name only :=
  List.foldl_hom (relabel ident name only) fun _ _ => rfl

end System

/-! ### Drawings -/

namespace Dot

theorem blockUpTo_withCounter : ∀ (depth : Nat) (n : Node),
    blockUpTo (s.withCounter c) depth n = blockUpTo s depth n
  | _, .inst i => by simp only [blockUpTo]
  | _, .host h => by simp only [blockUpTo]; rfl
  | 0, .group g => by simp only [blockUpTo]
  | depth + 1, .group g => by
    have hchildren : (s.withCounter c).children g = s.children g := rfl
    simp only [blockUpTo, hchildren, funext (blockUpTo_withCounter depth)]

mutual

theorem write_withCounter : ∀ (b : Block) (pad : String),
    b.write (s.withCounter c) pad = b.write s pad
  | .leaf i, pad => by simp only [Block.write]; rfl
  | .cluster n body, pad => by
    simp only [Block.write, writeAll_withCounter body]
    cases n <;> rfl

theorem writeAll_withCounter : ∀ (bs : List Block) (pad : String),
    writeAll (s.withCounter c) pad bs = writeAll s pad bs
  | [], _ => rfl
  | b :: bs, pad => by
    simp only [writeAll, write_withCounter b, writeAll_withCounter bs]

end

theorem render_withCounter (sys : System) : render (s.withCounter c) sys = render s sys := by
  have hblock : block (s.withCounter c) = block s := funext fun n => blockUpTo_withCounter c _ n
  have hlink : writeLink (s.withCounter c) " " = writeLink s " " := rfl
  have htheme : (s.withCounter c).theme = s.theme := rfl
  simp only [render, body, hblock, hlink, htheme, writeAll_withCounter]

end Dot

/-! ### The systems of a document -/

namespace SystemEntry

/-- The nodes and links of a system of a document, in a system that has nothing else yet. -/
def content (entry : SystemEntry) (s : Session) (d : Declared) (index : Nat) : System :=
  ((⟨⟨"", 0⟩, "", [], [], none⟩ : System).is s (d.systemLinks index)).contains s
    (entry.contains.filterMap d.node?)

/-- The drawing of a system of a document. -/
def drawing (entry : SystemEntry) (s : Session) (d : Declared) (index : Nat) : String :=
  Dot.render (entry.select s d index).2 (entry.select s d index).1

variable (entry : SystemEntry) (s : Session) (d : Declared) (index : Nat)

theorem content_withCounter :
    entry.content (s.withCounter c) d index = entry.content s d index := by
  rw [content, System.is_withCounter, System.contains_withCounter]
  rfl

/-- Of a system that is made, only the number comes from the counter; the name and the restriction are
    those of its entry. -/
theorem select_eq : entry.select s d index =
    ((entry.content s d index).relabel (s.counter.take "system").1 entry.name entry.only,
      s.withCounter (s.counter.take "system").2) := by
  have hnew : s.newSystem entry.name =
      ((⟨⟨"", 0⟩, "", [], [], none⟩ : System).relabel (s.counter.take "system").1 entry.name none,
        s.withCounter (s.counter.take "system").2) := rfl
  simp only [select, hnew, System.is_withCounter, System.contains_withCounter, System.is_relabel,
    System.contains_relabel]
  cases entry.only <;> rfl

/-- A drawing hangs neither on the counter nor, but for its title, on the name of the system. -/
theorem drawing_eq :
    entry.drawing s d index = Dot.render s ((entry.content s d index).rename entry.name) := by
  rw [drawing, select_eq, Dot.render_withCounter]
  rfl

theorem drawing_withCounter :
    entry.drawing (s.withCounter c) d index = entry.drawing s d index := by
  rw [drawing_eq, drawing_eq, content_withCounter, Dot.render_withCounter]

end SystemEntry

/-- The drawing at each place is that of the system there. -/
theorem Document.renderFrom_getElem? (d : Declared) : ∀ (entries : List SystemEntry) (index : Nat)
    (s : Session) (k : Nat), (renderFrom d index s entries)[k]? =
      entries[k]?.map fun entry => (entry.name, entry.drawing s d (index + k))
  | [], _, _, _ => rfl
  | entry :: _, _, _, 0 => rfl
  | entry :: rest, index, s, k + 1 => by
    have hrest := renderFrom_getElem? d rest (index + 1) (entry.select s d index).2 k
    simp only [SystemEntry.select_eq, SystemEntry.drawing_withCounter] at hrest
    rw [List.getElem?_cons_succ, show index + (k + 1) = index + 1 + k by omega, ← hrest, renderFrom,
      List.getElem?_cons_succ, SystemEntry.select_eq]

end Schematic
