import Schematic.Proofs.Dot.Lines
import Schematic.Proofs.Identity

/-! Links as they are drawn. An edge runs from the instance that was made first, whichever end was said
    to be the user; so two links that are mirror images of each other lie along one edge, and where no
    arrow goes both ways, the place of the arrow is all that tells their lines apart. -/

namespace Schematic

/-- The list has both instances, and the counter has not come around between them. -/
def OneRound (es : List Element) (i j : InstanceKey) : Prop :=
  ∃ m n : Nat, es[m]? = some (.node (.inst i)) ∧ es[n]? = some (.node (.inst j)) ∧
    (100 + m) / 2 ^ 64 = (100 + n) / 2 ^ 64

/-- The list has both instances, the first one earlier. -/
def MadeBefore (es : List Element) (i j : InstanceKey) : Prop :=
  ∃ m n : Nat, es[m]? = some (.node (.inst i)) ∧ es[n]? = some (.node (.inst j)) ∧ m < n

/-- The links run between the same two ends, each the other way, and look the same. -/
structure Link.Mirrors (a b : Link) : Prop where
  source : b.source = a.target
  target : b.target = a.source
  label : b.label = a.label
  bidirectional : b.bidirectional = a.bidirectional
  configuration : b.configuration = a.configuration
  creation : b.creation = a.creation
  dynamic : b.dynamic = a.dynamic
  multiple : b.multiple = a.multiple

namespace Edge

/-- The edge has the ends of the link, tells which of them is the source, and goes up in numbers. -/
structure Draws (s : Session) (link : Link) (e : Edge) : Prop where
  ends : (link.source, link.target) = if e.backwards then (e.head, e.tail) else (e.tail, e.head)
  self : link.source = link.target → e.backwards = false
  upTo : ∃ a b, s.identOf? (.inst e.tail) = some a ∧ s.identOf? (.inst e.head) = some b ∧
    a.upTo b = true

/-- The tail was made first, and has an ident of its own unless it is the head. -/
structure FromOlder (s : Session) (es : List Element) (e : Edge) : Prop where
  older : e.tail = e.head ∨ MadeBefore es e.tail e.head
  apart : ∀ a b, s.identOf? (.inst e.tail) = some a → s.identOf? (.inst e.head) = some b →
    ((a == b) = true ↔ e.tail = e.head)

end Edge

/-! ### Numbers in one round -/

theorem OneRound.symm {es : List Element} {i j : InstanceKey} (h : OneRound es i j) :
    OneRound es j i := by
  obtain ⟨m, n, hm, hn, hmn⟩ := h
  exact ⟨n, m, hn, hm, hmn.symm⟩

section Round

variable {m n : Nat} (h : (100 + m) / 2 ^ 64 = (100 + n) / 2 ^ 64)
include h

theorem number_lt_of_round : (100 + .ofNat m : UInt64) < 100 + .ofNat n ↔ m < n := by
  rw [UInt64.lt_iff_toNat_lt, UInt64.toNat_add, UInt64.toNat_add, UInt64.toNat_ofNat',
    UInt64.toNat_ofNat']
  show (100 + m % 2 ^ 64) % 2 ^ 64 < (100 + n % 2 ^ 64) % 2 ^ 64 ↔ m < n
  omega

theorem number_eq_of_round : (100 + .ofNat m : UInt64) = 100 + .ofNat n ↔ m = n := by
  rw [← UInt64.toNat_inj, UInt64.toNat_add, UInt64.toNat_add, UInt64.toNat_ofNat',
    UInt64.toNat_ofNat']
  show (100 + m % 2 ^ 64) % 2 ^ 64 = (100 + n % 2 ^ 64) % 2 ^ 64 ↔ m = n
  omega

end Round

namespace Session

variable {s t : Session} {es : List Element}

/-- Every instance has a place in the list, and its number comes of that. -/
theorem Numbers.instance_at (h : s.Numbers es) {i : InstanceKey} (hi : s.HasInstance i) :
    ∃ m, es[m]? = some (.node (.inst i)) ∧
      s.identOf? (.inst i) = some ⟨"instance", 100 + .ofNat m⟩ := by
  have hident : (Element.ident? s (.node (.inst i))).isSome :=
    hasNode_iff_identOf?.mp (show s.HasNode (.inst i) from hi)
  rcases h.complete _ hident with hmem | ⟨sys, hsys⟩
  · obtain ⟨m, hm⟩ := List.getElem?_of_mem hmem
    exact ⟨m, hm, h.ident? hm⟩
  · cases hsys

/-- No node is in the list twice. -/
theorem Numbers.place_unique (h : s.Numbers es) {i : InstanceKey} {m n : Nat}
    (hm : es[m]? = some (.node (.inst i))) (hn : es[n]? = some (.node (.inst i))) : m = n := by
  rcases Nat.lt_trichotomy m n with hmn | hmn | hmn
  · exact absurd (h.position_lt hm hn hmn rfl rfl rfl) (Nat.lt_irrefl _)
  · exact hmn
  · exact absurd (h.position_lt hn hm hmn rfl rfl rfl) (Nat.lt_irrefl _)

/-- Before the counter comes around for the first time, all is one round. -/
theorem Numbers.oneRound (h : s.Numbers es) (hfew : es.length < 2 ^ 64 - 100) {i j : InstanceKey}
    (hi : s.HasInstance i) (hj : s.HasInstance j) : OneRound es i j := by
  obtain ⟨m, hm, -⟩ := h.instance_at hi
  obtain ⟨n, hn, -⟩ := h.instance_at hj
  have hmlt := (List.getElem?_eq_some_iff.mp hm).1
  have hnlt := (List.getElem?_eq_some_iff.mp hn).1
  exact ⟨m, n, hm, hn, by omega⟩

/-- Instances of one round have the same ident only if they are the same, and compare as they were
    made. -/
theorem Numbers.compare_of_round (h : s.Numbers es) {i j : InstanceKey} (hround : OneRound es i j)
    {a b : Ident} (ha : s.identOf? (.inst i) = some a) (hb : s.identOf? (.inst j) = some b) :
    (a.number = b.number ↔ i = j) ∧ (a.number < b.number → MadeBefore es i j) := by
  obtain ⟨m, n, hm, hn, hmn⟩ := hround
  obtain rfl : ⟨"instance", 100 + .ofNat m⟩ = a := Option.some.inj ((h.ident? hm).symm.trans ha)
  obtain rfl : ⟨"instance", 100 + .ofNat n⟩ = b := Option.some.inj ((h.ident? hn).symm.trans hb)
  refine ⟨⟨fun hab => ?_, ?_⟩, fun hab => ⟨m, n, hm, hn, (number_lt_of_round hmn).mp hab⟩⟩
  · obtain rfl := (number_eq_of_round hmn).mp hab
    cases hm.symm.trans hn
    rfl
  · rintro rfl
    rw [h.place_unique hm hn]

end Session

/-! ### Turning a link -/

namespace Edge

variable {s : Session} {link a b : Link} {x y : Ident}

theorem turns_iff (hx : s.identOf? (.inst link.source) = some x)
    (hy : s.identOf? (.inst link.target) = some y) :
    turns s link = true ↔ link.source ≠ link.target ∧ y.number ≤ x.number := by
  rw [turns, hx, hy]
  simp [Ident.before]

/-- A link that is not turned has its source first. -/
theorem number_le_of_not_turns (hx : s.identOf? (.inst link.source) = some x)
    (hy : s.identOf? (.inst link.target) = some y) (h : turns s link = false) :
    x.number ≤ y.number := by
  by_cases hself : link.source = link.target
  · rw [hself, hy] at hx
    cases hx
    exact UInt64.le_refl _
  · rcases UInt64.le_total x.number y.number with hle | hle
    · exact hle
    · rw [(turns_iff hx hy).mpr ⟨hself, hle⟩] at h
      cases h

theorem draws_ofLink (hx : s.identOf? (.inst link.source) = some x)
    (hy : s.identOf? (.inst link.target) = some y) : (ofLink s link).Draws s link := by
  cases hturns : turns s link with
  | false =>
    refine ⟨by simp [ofLink, hturns], fun _ => hturns, x, y, ?_, ?_, ?_⟩
    · simpa [ofLink, hturns] using hx
    · simpa [ofLink, hturns] using hy
    · exact decide_eq_true (number_le_of_not_turns hx hy hturns)
  | true =>
    obtain ⟨hends, hle⟩ := (turns_iff hx hy).mp hturns
    refine ⟨by simp [ofLink, hturns], fun hself => absurd hself hends, y, x, ?_, ?_, ?_⟩
    · simpa [ofLink, hturns] using hy
    · simpa [ofLink, hturns] using hx
    · exact decide_eq_true hle

/-- Where the counter has not come around between the ends, the older end is the tail. -/
theorem fromOlder_ofLink {es : List Element} (hs : s.Numbers es)
    (hx : s.identOf? (.inst link.source) = some x) (hy : s.identOf? (.inst link.target) = some y)
    (hround : OneRound es link.source link.target) : (ofLink s link).FromOlder s es := by
  have hdraws := draws_ofLink hx hy
  have hround : OneRound es (ofLink s link).tail (ofLink s link).head := by
    cases hturns : turns s link with
    | false => simpa [ofLink, hturns] using hround
    | true => simpa [ofLink, hturns] using hround.symm
  obtain ⟨p, q, hp, hq, hle⟩ := hdraws.upTo
  obtain ⟨hsame, hbefore⟩ := hs.compare_of_round hround hp hq
  refine ⟨?_, fun p' q' hp' hq' => ?_⟩
  · rcases UInt64.lt_or_eq_of_le (of_decide_eq_true hle) with hlt | heq
    · exact .inr (hbefore hlt)
    · exact .inl (hsame.mp heq)
  · obtain rfl : p = p' := Option.some.inj (hp.symm.trans hp')
    obtain rfl : q = q' := Option.some.inj (hq.symm.trans hq')
    exact (beq_iff_eq (α := UInt64)).trans hsame

/-! ### Mirror images -/

/-- Of mirror images whose ends have idents of their own, just one is turned. -/
theorem turns_mirror (h : a.Mirrors b) (hx : s.identOf? (.inst a.source) = some x)
    (hy : s.identOf? (.inst a.target) = some y) (hne : x.number ≠ y.number) :
    turns s b = !turns s a := by
  have hends : a.source ≠ a.target := by
    intro hself
    rw [hself, hy] at hx
    cases hx
    exact hne rfl
  have hx' : s.identOf? (.inst b.target) = some x := by rw [h.target, hx]
  have hy' : s.identOf? (.inst b.source) = some y := by rw [h.source, hy]
  rw [Bool.eq_iff_iff, turns_iff hy' hx', h.source, h.target, Bool.not_eq_true',
    ← Bool.not_eq_true, turns_iff hx hy]
  constructor
  · rintro ⟨-, hle⟩ ⟨-, hge⟩
    exact hne (UInt64.le_antisymm hle hge)
  · intro hturns
    rcases UInt64.le_total x.number y.number with hle | hge
    · exact ⟨hends.symm, hle⟩
    · exact absurd ⟨hends, hge⟩ hturns

end Edge

namespace Dot

variable {s : Session} {a b : Link}

theorem writeLink_eq {l : LinkKey} (hl : s.link? l = some a) (pad : String) :
    writeLink s pad l = linkLine s pad a := by
  rw [writeLink, hl]
  exact line_edgeBody ..

/-- Mirror images look the same but for their arrows. -/
theorem styleOptions_mirror (h : a.Mirrors b) (p : Palette) :
    styleOptions p (.ofLink s b) b.label = styleOptions p (.ofLink s a) a.label := by
  have hstroke : (Edge.ofLink s b).stroke = (Edge.ofLink s a).stroke := by
    simp only [Edge.ofLink, h.configuration, h.creation]
  have haccent : (Edge.ofLink s b).accent = (Edge.ofLink s a).accent := by
    simp only [Edge.ofLink, h.configuration, h.dynamic]
  have hstriped : (Edge.ofLink s b).striped = (Edge.ofLink s a).striped := by
    simp only [Edge.ofLink, h.multiple, h.creation]
  unfold styleOptions colourOptions edgeColour
  rw [hstroke, haccent, hstriped, h.label]

/-- Mirror images lie along one edge. Even where the counter gave their ends the same number, the printed
    names are the same. -/
theorem edgeLine_mirror (hs : s.Built) (h : a.Mirrors b) (hsource : s.HasInstance a.source)
    (htarget : s.HasInstance a.target) (pad : String) (options : List String) :
    edgeLine s pad (.ofLink s b) options = edgeLine s pad (.ofLink s a) options := by
  obtain ⟨theme, ts, hmade⟩ := hs.reachable.madeBy
  obtain ⟨m, -, hx⟩ := hmade.numbers.instance_at hsource
  obtain ⟨n, -, hy⟩ := hmade.numbers.instance_at htarget
  by_cases hnumber : (100 + .ofNat m : UInt64) = 100 + .ofNat n
  · have hname : instanceName s a.target = instanceName s a.source := by
      rw [instanceName, hy, instanceName, hx, hnumber]
    cases hturn : Edge.turns s a <;> cases hturn' : Edge.turns s b <;>
      simp [edgeLine, Edge.ofLink, hturn, hturn', h.source, h.target, hname]
  · have hturns := Edge.turns_mirror h hx hy hnumber
    cases hturn : Edge.turns s a <;>
      simp [edgeLine, Edge.ofLink, hturns, hturn, h.source, h.target]

/-- Where the arrow goes both ways, or the link leads back to where it starts, mirror images are drawn
    the same. -/
theorem writeLink_mirror (hs : s.Built) {k l : LinkKey} (hk : s.link? k = some a)
    (hl : s.link? l = some b) (h : a.Mirrors b)
    (hsame : a.bidirectional = true ∨ a.source = a.target) (pad : String) :
    writeLink s pad k = writeLink s pad l := by
  have harrow : (Edge.ofLink s b).arrow = (Edge.ofLink s a).arrow := by
    rcases hsame with hboth | hself
    · simp only [Edge.ofLink, h.bidirectional, hboth, if_true]
    · have hturn : Edge.turns s a = false := by simp [Edge.turns, hself]
      have hturn' : Edge.turns s b = false := by simp [Edge.turns, h.source, h.target, hself]
      simp only [Edge.ofLink, h.bidirectional, hturn, hturn']
  have hsound := hs.sound.linked
  rw [writeLink_eq hk, writeLink_eq hl, linkLine, linkLine,
    edgeLine_mirror hs h (hsound.source hk) (hsound.target hk), harrow, styleOptions_mirror h]

/-- Otherwise one of the two has its arrow at the tail, and says so before everything else. -/
theorem writeLink_mirror_apart (hs : s.Built) {k l : LinkKey} (hk : s.link? k = some a)
    (hl : s.link? l = some b) (h : a.Mirrors b) (hone : a.bidirectional = false) {x y : Ident}
    (hx : s.identOf? (.inst a.source) = some x) (hy : s.identOf? (.inst a.target) = some y)
    (hne : x.number ≠ y.number) (pad : String) :
    let e := Edge.ofLink s a
    let options := styleOptions s.theme.palette e a.label
    let back := edgeLine s pad e ("dir = back" :: options)
    let forward := edgeLine s pad e options
    (writeLink s pad k, writeLink s pad l) = if e.backwards then (back, forward) else (forward, back)
    := by
  have hsound := hs.sound.linked
  have hturns := Edge.turns_mirror h hx hy hne
  have harrow : ∀ link : Link, link.bidirectional = false →
      (Edge.ofLink s link).arrow = if Edge.turns s link then .back else .forward := by
    intro link hlink
    simp [Edge.ofLink, hlink]
  intro e options back forward
  rw [writeLink_eq hk, writeLink_eq hl, linkLine, linkLine,
    edgeLine_mirror hs h (hsound.source hk) (hsound.target hk), styleOptions_mirror h, harrow a hone,
    harrow b (h.bidirectional.trans hone), hturns]
  show _ = if Edge.turns s a then (back, forward) else (forward, back)
  cases Edge.turns s a <;> rfl

end Dot

/-! ### Saying it twice -/

namespace Link.Mirrors

variable {s : Session} {a b : Link}

theorem apply (h : a.Mirrors b) (many : Bool) (m : Modifier) :
    (m.apply many a).Mirrors (m.apply many b) := by
  obtain ⟨h1, h2, h3, h4, h5, h6, h7, h8⟩ := h
  cases m <;> constructor <;> first | assumption | rfl

theorem touchesMany (h : a.Mirrors b) : s.touchesMany b = s.touchesMany a := by
  rw [Session.touchesMany, h.source, h.target, Bool.or_comm, Session.touchesMany]

/-- Modifiers do the same to both. -/
theorem marked (h : a.Mirrors b) (ms : List Modifier) : (s.marked ms a).Mirrors (s.marked ms b) := by
  induction ms generalizing a b with
  | nil => exact h
  | cons m ms ih =>
    refine ih (a := m.apply (s.touchesMany a) a) (b := m.apply (s.touchesMany b) b) ?_
    rw [h.touchesMany]
    exact h.apply _ m

end Link.Mirrors

namespace Session

variable {s : Session}

/-- Declares that two instances use each other, with modifiers for the link. -/
def exchange (s : Session) (ms : List Modifier) (source target : InstanceKey) : LinkKey × Session :=
  let (l, s) := s.connect .exchange source target
  (l, s.modifyAll l ms)

/-- A link that goes both ways, as it is made. -/
def exchanged (s : Session) (source target : InstanceKey) : Link :=
  { ident := (s.takeIdent "link").1, source, target, chain := s.nextChain, bidirectional := true
    multiple := s.isMany source || s.isMany target }

theorem bidirectional_marked (ms : List Modifier) {link : Link} (h : link.bidirectional = true) :
    (s.marked ms link).bidirectional = true := by
  induction ms generalizing link with
  | nil => exact h
  | cons m ms ih => exact ih (by cases m <;> first | exact h | rfl)

theorem exchange_eq (ms : List Modifier) (source target : InstanceKey) :
    s.exchange ms source target = (s.nextLink, (s.newLink source target none).2.modifyLink s.nextLink
      (s.marked (.bidirectional :: ms))) := by
  have hmodify : s.exchange ms source target = (s.nextLink,
      (s.newLink source target none).2.modifyAll s.nextLink (.bidirectional :: ms)) := rfl
  rw [hmodify, modifyAll_eq]
  rfl

theorem link?_exchange (ms : List Modifier) (source target : InstanceKey) (l : LinkKey) :
    (s.exchange ms source target).2.link? l =
      if l = s.nextLink then some (s.marked ms (s.exchanged source target)) else s.link? l := by
  rw [exchange_eq, link?_modifyLink, link?_newLink]
  by_cases hl : l = s.nextLink
  · rw [if_pos hl.symm, if_pos hl, if_pos hl]
    rfl
  · rw [if_neg (Ne.symm hl), if_neg hl, if_neg hl]

theorem Built.exchange (hs : s.Built) {source target : InstanceKey} (hsource : s.HasInstance source)
    (htarget : s.HasInstance target) (ms : List Modifier) : (s.exchange ms source target).2.Built := by
  have hlink : (s.connect .exchange source target).2.HasLink s.nextLink := by
    have hmade := link?_exchange (s := s) [] source target s.nextLink
    rw [if_pos rfl] at hmade
    exact hasLink_iff.mpr ⟨s.exchanged source target, hmade⟩
  have hconnect := hs.call (.connect .exchange source target) ⟨hsource, htarget⟩
  exact hconnect.call (.modifyAll s.nextLink ms) hlink

/-- Saying it of `a` and `b`, and then of `b` and `a`, makes mirror images. -/
theorem exchange_mirrors (ms : List Modifier) (a b : InstanceKey) :
    let first := s.exchange ms a b
    let second := first.2.exchange ms b a
    ∃ x y, second.2.link? first.1 = some x ∧ second.2.link? second.1 = some y ∧ x.Mirrors y ∧
      x.bidirectional = true := by
  intro first second
  have hnext : first.2.nextLink ≠ s.nextLink := by
    show (LinkKey.mk _) ≠ LinkKey.mk _
    simp [first, exchange_eq, modifyLink, newLink_eq]
  have hmany : first.2.marked = s.marked ∧ first.2.isMany = s.isMany := by
    simp only [first, exchange_eq, newLink_eq]
    exact ⟨rfl, rfl⟩
  refine ⟨s.marked ms (s.exchanged a b), first.2.marked ms (first.2.exchanged b a), ?_, ?_, ?_, ?_⟩
  · show second.2.link? s.nextLink = _
    rw [link?_exchange, if_neg hnext.symm, link?_exchange, if_pos rfl]
  · show second.2.link? first.2.nextLink = _
    rw [link?_exchange, if_pos rfl]
  · rw [hmany.1]
    have hmultiple : (first.2.exchanged b a).multiple = (s.exchanged a b).multiple := by
      rw [exchanged, hmany.2, Bool.or_comm]
      rfl
    have hmirror : (s.exchanged a b).Mirrors (first.2.exchanged b a) :=
      ⟨rfl, rfl, rfl, rfl, rfl, rfl, rfl, hmultiple⟩
    exact hmirror.marked ms
  · exact bidirectional_marked ms rfl

end Session

namespace Dot

/-- Canonical edges. The line of a link is that of its edge, which has the two ends, tells which of them
    is the source and goes up in numbers; where the counter has not come around between the ends, it runs
    from the older one. Mirror images have the same line, or, with an arrow that goes one way, lines that
    differ by one option at the front of the one that is turned. Two instances that are said to use each
    other, and then once more the other way around, get the same line twice. -/
theorem edges_canonical {s : Session} (hs : s.Built) (pad : String) :
    (∀ l link, s.link? l = some link → writeLink s pad l = linkLine s pad link ∧
      (Edge.ofLink s link).Draws s link ∧
      ∀ theme ts, s.MadeBy theme ts →
        OneRound (Session.made theme ts) link.source link.target →
          (Edge.ofLink s link).FromOlder s (Session.made theme ts)) ∧
    (∀ theme ts, s.MadeBy theme ts → (Session.made theme ts).length < 2 ^ 64 - 100 → ∀ i j,
      s.HasInstance i → s.HasInstance j → OneRound (Session.made theme ts) i j) ∧
    (∀ k l a b, s.link? k = some a → s.link? l = some b → a.Mirrors b →
      (a.bidirectional = true ∨ a.source = a.target → writeLink s pad k = writeLink s pad l) ∧
      (a.bidirectional = false → a.source ≠ a.target → ∀ theme ts, s.MadeBy theme ts →
        OneRound (Session.made theme ts) a.source a.target →
          let e := Edge.ofLink s a
          let options := styleOptions s.theme.palette e a.label
          let back := edgeLine s pad e ("dir = back" :: options)
          let forward := edgeLine s pad e options
          (writeLink s pad k, writeLink s pad l) =
            if e.backwards then (back, forward) else (forward, back))) ∧
    ∀ (ms : List Modifier) (a b : InstanceKey), s.HasInstance a → s.HasInstance b →
      let first := s.exchange ms a b
      let second := first.2.exchange ms b a
      ∃ x y, second.2.link? first.1 = some x ∧ second.2.link? second.1 = some y ∧ x.Mirrors y ∧
        writeLink second.2 pad first.1 = writeLink second.2 pad second.1 := by
  have hlinked := hs.sound.linked
  have hident : ∀ i, s.HasInstance i → ∃ x, s.identOf? (.inst i) = some x := by
    obtain ⟨theme, ts, hmade⟩ := hs.reachable.madeBy
    intro i hi
    obtain ⟨m, -, hm⟩ := hmade.numbers.instance_at hi
    exact ⟨_, hm⟩
  refine ⟨fun l link hl => ?_, fun theme ts hmade hfew i j hi hj => hmade.numbers.oneRound hfew hi hj,
    fun k l a b hk hl hmirror => ⟨fun hsame => writeLink_mirror hs hk hl hmirror hsame pad, ?_⟩, ?_⟩
  · obtain ⟨x, hx⟩ := hident _ (hlinked.source hl)
    obtain ⟨y, hy⟩ := hident _ (hlinked.target hl)
    exact ⟨writeLink_eq hl pad, Edge.draws_ofLink hx hy,
      fun theme ts hmade hround => Edge.fromOlder_ofLink hmade.numbers hx hy hround⟩
  · intro hone hends theme ts hmade hround
    obtain ⟨x, hx⟩ := hident _ (hlinked.source hk)
    obtain ⟨y, hy⟩ := hident _ (hlinked.target hk)
    obtain ⟨hnumber, -⟩ := hmade.numbers.compare_of_round hround hx hy
    exact writeLink_mirror_apart hs hk hl hmirror hone hx hy (fun hxy => hends (hnumber.mp hxy)) pad
  · intro ms a b ha hb first second
    obtain ⟨x, y, hx, hy, hmirror, hboth⟩ := s.exchange_mirrors ms a b
    have hfirst : first.2.Built := hs.exchange ha hb ms
    have hkeeps : ∀ i, s.HasInstance i → first.2.HasInstance i := by
      intro i hi
      simp only [first, Session.exchange_eq, Session.newLink_eq]
      exact hi
    have hsecond : second.2.Built := hfirst.exchange (hkeeps b hb) (hkeeps a ha) ms
    exact ⟨x, y, hx, hy, hmirror, writeLink_mirror hsecond hx hy hmirror (.inl hboth) pad⟩

/-- Two instances, and a link from each to the other with the same label. -/
def backAndForth : List Step :=
  [.newInstance "web", .newInstance "db", .link ⟨0⟩ ⟨1⟩, .link ⟨1⟩ ⟨0⟩, .modify ⟨0⟩ (.label "asks"),
    .modify ⟨1⟩ (.label "asks")]

/-- Both run from the older instance, and the second one says where its arrow is. -/
theorem backAndForth_canonical :
    let s := backAndForth.foldl Step.run (.fresh .dark)
    s.Built ∧
    writeLink s " " ⟨0⟩ = " instance_100 -> instance_101 [ label = \" asks \" ];\n" ∧
    writeLink s " " ⟨1⟩ = " instance_100 -> instance_101 [ dir = back, label = \" asks \" ];\n" := by
  intro s
  have hfits : Call.AllFit (.fresh .dark) (backAndForth.map .step) := by decide
  have hbuilt := (Session.Built.fresh .dark).foldl hfits
  rw [List.foldl_map] at hbuilt
  obtain ⟨-, hround, hmirrors, -⟩ := edges_canonical hbuilt " "
  have hmade : s.MadeBy .dark backAndForth := ⟨by decide, rfl⟩
  obtain ⟨-, happart⟩ := hmirrors ⟨0⟩ ⟨1⟩ _ _ rfl rfl ⟨rfl, rfl, rfl, rfl, rfl, rfl, rfl, rfl⟩
  have hlines := happart rfl (by decide) .dark backAndForth hmade
    (hround .dark backAndForth hmade (by decide) _ _ (by decide) (by decide))
  obtain ⟨hfirst, hsecond⟩ := Prod.mk.inj hlines
  exact ⟨hbuilt, hfirst.trans (by decide +kernel), hsecond.trans (by decide +kernel)⟩

end Dot

end Schematic
