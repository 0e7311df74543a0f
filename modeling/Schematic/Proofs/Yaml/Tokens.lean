import Schematic.Proofs.Yaml.Nodes
import Schematic.Proofs.Yaml.Scalars
import Schematic.Yaml.Layout

/-! The text of a plain value, read as YAML: without breaks it consists of the tokens of the value.

    All of the text is one line outside of all blocks, so no place of a key is ever required, and
    none is given up before its colon comes. -/

namespace Schematic.Yaml

open Json

/-- Places of keys, for the line and for each of `depth` open brackets, none of which has to be a
    key. -/
structure Free (keys : List (Option KeyStart)) (depth : Nat) : Prop where
  length : keys.length = depth + 1
  optional : ∀ k ∈ keys, ∀ s ∈ k, s.required = false

/-- On the first line, outside of all blocks and with `depth` brackets open, `rest` comes next and
    `ts` were read. -/
structure Inline (l : Layout) (rest : List Char) (ts : List Token) (depth : Nat) : Prop where
  rest : l.cursor.rest = rest
  line : l.cursor.line = 0
  column : l.cursor.column = l.cursor.index
  inside : depth ≠ 0 → l.cursor.index ≠ 0
  tokens : l.tokens.toList = ts
  indent : l.indent = -1
  outer : l.outer = []
  keys : Free l.keys depth

namespace Free

variable {keys : List (Option KeyStart)} {depth : Nat}

theorem cons_none (h : Free keys depth) : Free (none :: keys) (depth + 1) where
  length := by rw [List.length_cons, h.length]
  optional := by
    rintro k (_ | _) s hs
    · cases hs
    · exact h.optional k ‹_› s hs

theorem replace (h : Free keys depth) {k : Option KeyStart} (hk : ∀ s ∈ k, s.required = false) :
    Free (k :: keys.tail) depth where
  length := by
    have := h.length
    rw [List.length_cons, List.length_tail]
    omega
  optional := by
    rintro j (_ | _) s hs
    · exact hk s hs
    · exact h.optional j (List.mem_of_mem_tail ‹_›) s hs

theorem tail (h : Free keys (depth + 1)) : Free keys.tail depth where
  length := by rw [List.length_tail, h.length]; rfl
  optional k hk := h.optional k (List.mem_of_mem_tail hk)

theorem filter (h : Free keys depth) (p : KeyStart → Bool) :
    Free (keys.map (·.filter p)) depth where
  length := by rw [List.length_map, h.length]
  optional := by
    intro k hk s hs
    obtain ⟨j, hj, rfl⟩ := List.mem_map.mp hk
    exact h.optional j hj s (Option.mem_filter_iff.mp hs).1

end Free

namespace Inline

variable {l : Layout} {rest : List Char} {ts : List Token} {depth : Nat}

/-- Behind some characters of the text. -/
theorem after (cs : List Char) (h : Inline l (cs ++ rest) ts depth) (hcs : cs ≠ []) {l' : Layout}
    {us : List Token} {n : Nat} (hcursor : l'.cursor = l.cursor.advance cs.length)
    (htokens : l'.tokens.toList = us) (hindent : l'.indent = l.indent)
    (houter : l'.outer = l.outer) (hkeys : Free l'.keys n) : Inline l' rest us n where
  rest := by rw [hcursor, Cursor.rest_advance h.rest]
  line := by rw [hcursor]; exact h.line
  column := by rw [hcursor, Cursor.advance, h.column]
  inside _ := by
    have := List.length_pos_iff.mpr hcs
    rw [hcursor, Cursor.advance]
    dsimp only
    omega
  tokens := htokens
  indent := hindent.trans h.indent
  outer := houter.trans h.outer
  keys := hkeys

theorem inFlow (h : Inline l rest ts (depth + 1)) : l.inFlow = true := by
  simp [Layout.inFlow, h.keys.length]

theorem closeBlocks (h : Inline l rest ts depth) (column : Int) : l.closeBlocks column = l := by
  simp [Layout.closeBlocks, h.outer, Layout.closeBlocks.go]

theorem dropKey (h : Inline l rest ts depth) :
    ∃ keys, l.dropKey = some { l with keys } ∧ Free keys depth ∧ keys.tail = l.keys.tail := by
  obtain ⟨cursor, tokens, indent, outer, keyAllowed, _ | ⟨_ | k, ks⟩⟩ := l
  · exact ⟨_, rfl, h.keys, rfl⟩
  · exact ⟨_, rfl, h.keys, rfl⟩
  · have hk : k.required = false := h.keys.optional (some k) (by simp) k rfl
    exact ⟨none :: ks, by simp [Layout.dropKey, hk], h.keys.replace (by simp), rfl⟩

/-- Where a key may begin, the place is kept. -/
theorem noteKey (h : Inline l rest ts depth) :
    ∃ keys, l.noteKey = some { l with keys } ∧ Free keys depth ∧
      (l.keyAllowed → keys.head? = some (some
        { position := ts.length, required := false, line := 0, column := l.cursor.index,
          index := l.cursor.index })) := by
  by_cases hallowed : l.keyAllowed = true
  · obtain ⟨keys, hdrop, -, htail⟩ := h.dropKey
    have hsize : l.tokens.size = ts.length := by rw [← h.tokens, Array.length_toList]
    have hrequired : l.indent ≠ l.cursor.index := by rw [h.indent]; omega
    refine ⟨_ :: l.keys.tail, ?_, h.keys.replace ?_, fun _ => rfl⟩
    · simp [Layout.noteKey, hallowed, hdrop, htail, hsize, hrequired, h.line, h.column]
    · rintro s ⟨rfl⟩
      rfl
  · refine ⟨l.keys, ?_, h.keys, fun h => absurd h hallowed⟩
    rw [Layout.noteKey, if_pos (by simpa using hallowed)]

end Inline

/-! ### Tokens one by one -/

/-- The character stands for itself at the start of a token. -/
def startsToken (x : Char) : Bool := !isSpacing x && !isBreak x && x ≠ '#' && x ≠ '\ufeff'

/-- Reading from `l` on comes to reading from `l'` on, with no more tokens between than there are
    characters in `cs`. -/
def Scans (cs : List Char) (l l' : Layout) : Prop :=
  ∃ n ≤ cs.length, ∀ fuel, Layout.readAll (fuel + n) l = Layout.readAll fuel l'

theorem Scans.trans {cs ds : List Char} {l l' l'' : Layout} (h : Scans cs l l')
    (h' : Scans ds l' l'') : Scans (cs ++ ds) l l'' := by
  obtain ⟨m, hm, h⟩ := h
  obtain ⟨n, hn, h'⟩ := h'
  refine ⟨n + m, ?_, fun fuel => by rw [← Nat.add_assoc, h, h']⟩
  rw [List.length_append]
  omega

theorem Scans.refl (l : Layout) : Scans [] l l := ⟨0, Nat.le_refl 0, fun _ => rfl⟩

/-- Where the places of keys that are too far back are given up. -/
def Layout.fresh (l : Layout) : Layout :=
  { l with keys := l.keys.map (·.filter fun k => !l.isStale k) }

section

variable {l : Layout} {x : Char} {next : List Char} {ts : List Token} {depth : Nat}

theorem skipToToken_of_starts (h : Inline l (x :: next) ts depth) (hx : startsToken x) (fuel : Nat) :
    l.skipToToken (fuel + 1) = l := by
  simp only [startsToken, Bool.and_eq_true, Bool.not_eq_true', decide_eq_true_eq] at hx
  obtain ⟨⟨⟨hspacing, hbreak⟩, hcomment⟩, horder⟩ := hx
  simp only [isSpacing, Bool.or_eq_false_iff, decide_eq_false_iff_not] at hspacing
  have hnone := Cursor.readBreak?_eq_none h.rest hbreak
  simp [Layout.skipToToken, Cursor.at?, h.rest, horder, Cursor.skipWhile, hspacing, Cursor.skipComment,
    Cursor.advance_zero, hcomment, hnone, Layout.moveTo]

theorem dropStaleKeys_eq (h : Inline l next ts depth) : l.dropStaleKeys = some l.fresh := by
  have hany : (l.keys.any fun k => k.any fun k => l.isStale k && k.required) = false := by
    rw [List.any_eq_false]
    intro k hk
    cases k with
    | none => simp
    | some s => simp [h.keys.optional (some s) hk s rfl]
  simp [Layout.dropStaleKeys, hany, Layout.fresh]

theorem Inline.fresh (h : Inline l next ts depth) : Inline l.fresh next ts depth :=
  { h with keys := h.keys.filter _ }

/-- One token, which takes at least one character. -/
theorem scans_token (h : Inline l (x :: next) ts depth) (hx : startsToken x) {l' : Layout}
    (hread : l.fresh.readToken x next = some l') {cs : List Char} (hcs : cs ≠ []) :
    Scans cs l l' := by
  refine ⟨1, List.length_pos_iff.mpr hcs, fun fuel => ?_⟩
  have hrest : l.fresh.cursor.rest = x :: next := h.rest
  simp only [Layout.readAll, skipToToken_of_starts h hx, dropStaleKeys_eq h, Option.bind_eq_bind,
    Option.bind_some, h.fresh.closeBlocks, hrest, hread]

theorem no_mark (h : Inline l (x :: next) ts depth) (hdash : x ≠ '-') (hdot : x ≠ '.') :
    l.cursor.atMark '-' = false ∧ l.cursor.atMark '.' = false := by
  simp [Cursor.atMark, h.rest, hdash.symm, hdot.symm]

/-! #### Brackets, commas and colons -/

theorem read_opening {t : Token} (h : Inline l (x :: next) ts depth)
    (hx : x = '[' ∧ t = .flowSequence ∨ x = '\x7b' ∧ t = .flowMapping) :
    ∃ l', l.readToken x next = some l' ∧ Inline l' next (ts ++ [t]) (depth + 1) ∧
      l'.keyAllowed = true := by
  obtain ⟨keys, hnote, hkeys, -⟩ := h.noteKey
  have hread : l.readToken x next = l.readOpening t := by
    rcases hx with ⟨rfl, rfl⟩ | ⟨rfl, rfl⟩
    all_goals simp [Layout.readToken, no_mark h (by decide) (by decide)]
  rw [hread, Layout.readOpening, hnote]
  refine ⟨_, rfl, ?_, rfl⟩
  refine Inline.after [x] h (by simp) (Cursor.skip_eq _) ?_ rfl rfl hkeys.cons_none
  simp [Layout.moveTo, Layout.emit, h.tokens]

theorem read_closing {t : Token} (h : Inline l (x :: next) ts (depth + 1))
    (hx : x = ']' ∧ t = .flowSequenceEnd ∨ x = '\x7d' ∧ t = .flowMappingEnd) :
    ∃ l', l.readToken x next = some l' ∧ Inline l' next (ts ++ [t]) depth := by
  obtain ⟨keys, hdrop, hkeys, -⟩ := h.dropKey
  have hread : l.readToken x next = l.readClosing t := by
    rcases hx with ⟨rfl, rfl⟩ | ⟨rfl, rfl⟩
    all_goals simp [Layout.readToken, no_mark h (by decide) (by decide)]
  have hflow : ({ l with keys } : Layout).inFlow = true := by simp [Layout.inFlow, hkeys.length]
  rw [hread, Layout.readClosing, hdrop]
  refine ⟨_, rfl, ?_⟩
  refine Inline.after [x] h (by simp) (Cursor.skip_eq _) ?_ rfl rfl ?_
  · simp [Layout.moveTo, Layout.emit, h.tokens]
  · simp only [hflow, if_true]
    exact hkeys.tail

theorem read_comma (h : Inline l (',' :: next) ts depth) :
    ∃ l', l.readToken ',' next = some l' ∧ Inline l' next (ts ++ [.flowEntry]) depth ∧
      l'.keyAllowed = true := by
  obtain ⟨keys, hdrop, hkeys, -⟩ := h.dropKey
  have hread : l.readToken ',' next = l.readComma := by
    simp [Layout.readToken, no_mark h (by decide) (by decide)]
  rw [hread, Layout.readComma, hdrop]
  refine ⟨_, rfl, ?_, rfl⟩
  refine Inline.after [','] h (by simp) (Cursor.skip_eq _) ?_ rfl rfl hkeys
  simp [Layout.moveTo, Layout.emit, Layout.allowKey, h.tokens]

theorem insertIdx_length_append (t : Token) (vs : List Token) :
    ∀ us : List Token, (us ++ vs).insertIdx us.length t = us ++ t :: vs
  | [] => rfl
  | u :: us => congrArg (u :: ·) (insertIdx_length_append t vs us)

/-- What may be a key is one when a colon follows. -/
theorem read_colon {us vs : List Token} {k : KeyStart} (h : Inline l (':' :: next) ts (depth + 1))
    (hkey : l.keys.head? = some (some k)) (hts : ts = us ++ vs) (hk : k.position = us.length) :
    ∃ l', l.readToken ':' next = some l' ∧
      Inline l' next (us ++ .key :: vs ++ [.value]) (depth + 1) := by
  obtain ⟨ks, hkeys⟩ : ∃ ks, l.keys = some k :: ks := by
    cases hl : l.keys with
    | nil => simp [hl] at hkey
    | cons j ks => exact ⟨ks, by simpa [hl] using hkey⟩
  have hread : l.readToken ':' next = l.readColon := by
    simp [Layout.readToken, no_mark h (by decide) (by decide), h.inFlow]
  have htokens : (l.tokens.insertIdxIfInBounds k.position .key).toList = us ++ .key :: vs := by
    have hsize : us.length ≤ l.tokens.size := by
      rw [← Array.length_toList, h.tokens, hts, List.length_append]
      omega
    rw [hk, Array.insertIdxIfInBounds, dif_pos hsize, Array.toList_insertIdx, h.tokens, hts,
      insertIdx_length_append]
  have hfree : Free (none :: ks) (depth + 1) := by
    simpa [hkeys] using h.keys.replace (k := none) (by simp)
  -- the key may begin to the right of all blocks, but between brackets it opens none
  have hopen : ∀ tokens, ({ l with tokens, keys := none :: ks } : Layout).openBlock k.column
      k.position .blockMapping = { l with tokens, keys := none :: ks } := by
    simp [Layout.openBlock, Layout.inFlow, hfree.length]
  rw [hread]
  simp only [Layout.readColon, hkeys, hopen]
  refine ⟨_, rfl, ?_⟩
  refine Inline.after [':'] h (by simp) (Cursor.skip_eq _) ?_ rfl rfl hfree
  simp [Layout.moveTo, Layout.emit, Layout.allowKey, htokens]

/-! #### Strings and words -/

theorem read_string {s : String} (h : Inline l (quoted s ++ next) ts depth)
    (hbreak : ∀ y ∈ quoted s, isBreak y = false) :
    ∃ l', l.readToken '"' (escaped s.toList ++ '"' :: next) = some l' ∧
      Inline l' next (ts ++ [.scalar s .quoted]) depth ∧
      (l.keyAllowed → l'.keys.head? = some (some
        { position := ts.length, required := false, line := 0, column := l.cursor.index,
          index := l.cursor.index })) ∧
      l'.cursor.index = l.cursor.index + (quoted s).length := by
  obtain ⟨keys, hnote, hkeys, hplace⟩ := h.noteKey
  have hrest : l.cursor.rest = quoted s ++ next := h.rest
  have hread : l.readToken '"' (escaped s.toList ++ '"' :: next) =
      l.readKeyLike fun c => (readQuoted '"' c).map fun p => (.scalar p.1 .quoted, p.2) := by
    have hquote : quoted s ++ next = '"' :: (escaped s.toList ++ '"' :: next) := by simp [quoted]
    rw [hquote] at h
    simp [Layout.readToken, no_mark h (by decide) (by decide)]
  rw [hread, Layout.readKeyLike, hnote]
  simp only [Option.bind_eq_bind, Option.bind_some, readQuoted_quoted hrest hbreak, Option.map_some]
  refine ⟨_, rfl, ?_, hplace, rfl⟩
  refine Inline.after _ h (by simp [quoted]) rfl ?_ rfl rfl hkeys
  simp [Layout.moveTo, Layout.emit, Layout.allowKey, h.tokens]

theorem read_word {w : List Char} {y : Char} (h : Inline l (x :: w ++ y :: next) ts (depth + 1))
    (hx : x = 'n' ∨ x = 't' ∨ x = 'f') (hw : (x :: w).all isWordChar) (hy : isFlowMark y) :
    ∃ l', l.readToken x (w ++ y :: next) = some l' ∧
      Inline l' (y :: next) (ts ++ [.scalar (String.ofList (x :: w)) .plain]) (depth + 1) := by
  obtain ⟨keys, hnote, hkeys, -⟩ := h.noteKey
  have hrest : l.cursor.rest = x :: w ++ y :: next := h.rest
  have hread : l.readToken x (w ++ y :: next) = l.readPlainScalar := by
    rw [List.cons_append] at h
    rcases hx with rfl | rfl | rfl
    all_goals
      simp [Layout.readToken, no_mark h (by decide) (by decide), Layout.startsPlain, isSpacing,
        isBreak, isPlainBreak, isKeptBreak, Layout.isIndicator]
  have hcolumn : l.cursor.column ≠ 0 := by
    rw [h.column]
    exact h.inside (Nat.succ_ne_zero depth)
  have hflow : ({ l with keys } : Layout).inFlow = true := by simp [Layout.inFlow, hkeys.length]
  have hplain := readPlain_word hw (List.cons_ne_nil x w) (l.indent + 1) hrest hy hcolumn
  rw [hread, Layout.readPlainScalar, hnote]
  simp only [Option.bind_eq_bind, Option.bind_some, hflow, hplain]
  refine ⟨_, rfl, ?_⟩
  refine Inline.after _ h (by simp) rfl ?_ rfl rfl hkeys
  simp [Layout.moveTo, Layout.emit, Layout.allowKey, h.tokens]

end

/-! ### Values -/

section

variable {l : Layout} {ts : List Token} {depth : Nat}

theorem scan_key {key : String} {rest : List Char}
    (h : Inline l (quoted key ++ ':' :: rest) ts (depth + 1)) (hallowed : l.keyAllowed = true)
    (hlength : (quoted key).length ≤ 1024) (hbreak : ∀ y ∈ quoted key, isBreak y = false) :
    ∃ l', Scans (quoted key ++ [':']) l l' ∧
      Inline l' rest (ts ++ [.key, .scalar key .quoted, .value]) (depth + 1) := by
  have hquote : quoted key ++ ':' :: rest = '"' :: (escaped key.toList ++ '"' :: ':' :: rest) := by
    simp [quoted]
  obtain ⟨l₁, hread, hl₁, hplace, hindex⟩ := read_string h.fresh hbreak
  have hstring : Scans (quoted key) l l₁ := by
    rw [hquote] at h
    exact scans_token h (by decide) hread (by simp [quoted])
  -- the string is short, so that its place is still kept where the colon comes
  have hkey : l₁.fresh.keys.head? = some (some
      { position := ts.length, required := false, line := 0, column := l.cursor.index,
        index := l.cursor.index }) := by
    have hplace := hplace hallowed
    have hcursor : l.fresh.cursor = l.cursor := rfl
    rw [hcursor] at hplace hindex
    rw [Layout.fresh, List.head?_map, hplace]
    simp [Layout.isStale, hl₁.line, hindex]
    omega
  obtain ⟨l', hread', hl'⟩ := read_colon hl₁.fresh hkey rfl rfl
  refine ⟨l', hstring.trans (scans_token hl₁ (by decide) hread' (by simp)), ?_⟩
  simpa using hl'

/-- What follows a value between brackets. -/
def EndsValue (rest : List Char) : Prop := ∃ y r, rest = y :: r ∧ isFlowMark y

/-- Between brackets the text of a value is read as the tokens of the value. -/
def ScansAs (v : Value) : Prop :=
  ∀ (l : Layout) (rest : List Char) (ts : List Token) (depth : Nat),
    Inline l (v.chars ++ rest) ts (depth + 1) → EndsValue rest →
    (∀ y ∈ v.chars, isBreak y = false) →
    ∃ l', Scans v.chars l l' ∧ Inline l' rest (ts ++ v.tokens) (depth + 1)

theorem scan_comma {rest : List Char} (h : Inline l (',' :: rest) ts depth) :
    ∃ l', Scans [','] l l' ∧ Inline l' rest (ts ++ [.flowEntry]) depth ∧ l'.keyAllowed = true := by
  obtain ⟨l', hread, hl', hallowed⟩ := read_comma h.fresh
  exact ⟨l', scans_token h (by decide) hread (by simp), hl', hallowed⟩

/-! #### Items -/

/-- The text of further items. -/
def moreItemChars (vs : List Value) : List Char := vs.flatMap fun v => ',' :: v.chars

theorem moreItemChars_cons (v : Value) (vs : List Value) :
    moreItemChars (v :: vs) = ',' :: (v.chars ++ moreItemChars vs) := by
  simp [moreItemChars]

theorem itemChars_cons : ∀ (v : Value) (vs : List Value),
    itemChars (v :: vs) = v.chars ++ moreItemChars vs
  | v, [] => by simp [itemChars, moreItemChars]
  | v, w :: vs => by rw [itemChars_cons_cons, itemChars_cons w vs, moreItemChars_cons]

theorem endsValue_moreItemChars (vs : List Value) (rest : List Char) :
    EndsValue (moreItemChars vs ++ ']' :: rest) := by
  cases vs with
  | nil => exact ⟨']', rest, rfl, rfl⟩
  | cons v vs => exact ⟨',', _, by rw [moreItemChars_cons, List.cons_append], rfl⟩

theorem scan_moreItems : ∀ (vs : List Value), (∀ v ∈ vs, ScansAs v) →
    ∀ (l : Layout) (rest : List Char) (ts : List Token),
    Inline l (moreItemChars vs ++ ']' :: rest) ts (depth + 1) →
    (∀ y ∈ moreItemChars vs, isBreak y = false) →
    ∃ l', Scans (moreItemChars vs) l l' ∧
      Inline l' (']' :: rest) (ts ++ moreItems vs) (depth + 1)
  | [], _, l, rest, ts, h, _ => ⟨l, .refl l, by simpa [moreItemChars, moreItems] using h⟩
  | v :: vs, hscan, l, rest, ts, h, hbreak => by
    obtain ⟨hv, hvs⟩ := List.forall_mem_cons.mp hscan
    rw [moreItemChars_cons] at h hbreak ⊢
    obtain ⟨-, hbreak⟩ := List.forall_mem_cons.mp hbreak
    obtain ⟨hbreakv, hbreakvs⟩ := List.forall_mem_append.mp hbreak
    rw [List.cons_append, List.append_assoc] at h
    obtain ⟨l₁, hcomma, hl₁, -⟩ := scan_comma h
    obtain ⟨l₂, hvalue, hl₂⟩ := hv l₁ _ _ depth hl₁ (endsValue_moreItemChars vs rest) hbreakv
    obtain ⟨l₃, hmore, hl₃⟩ := scan_moreItems vs hvs l₂ rest _ hl₂ hbreakvs
    refine ⟨l₃, hcomma.trans (hvalue.trans hmore), ?_⟩
    simpa [moreItems_cons, comma] using hl₃

theorem scan_items {vs : List Value} (hscan : ∀ v ∈ vs, ScansAs v) {rest : List Char}
    (h : Inline l (itemChars vs ++ ']' :: rest) ts (depth + 1))
    (hbreak : ∀ y ∈ itemChars vs, isBreak y = false) :
    ∃ l', Scans (itemChars vs) l l' ∧ Inline l' (']' :: rest) (ts ++ itemTokens vs) (depth + 1) := by
  cases vs with
  | nil => exact ⟨l, by rw [itemChars]; exact .refl l, by simpa [itemChars, itemTokens] using h⟩
  | cons v vs =>
    obtain ⟨hv, hvs⟩ := List.forall_mem_cons.mp hscan
    rw [itemChars_cons] at h hbreak ⊢
    obtain ⟨hbreakv, hbreakvs⟩ := List.forall_mem_append.mp hbreak
    rw [List.append_assoc] at h
    obtain ⟨l₁, hvalue, hl₁⟩ := hv l _ _ depth h (endsValue_moreItemChars vs rest) hbreakv
    obtain ⟨l₂, hmore, hl₂⟩ := scan_moreItems vs hvs l₁ rest _ hl₁ hbreakvs
    refine ⟨l₂, hvalue.trans hmore, ?_⟩
    rw [itemTokens_cons, ← List.append_assoc]
    exact hl₂

/-! #### Members -/

/-- The text of a key and its value. -/
def memberPart (m : String × Value) : List Char := quoted m.1 ++ ':' :: m.2.chars

/-- The text of further members. -/
def moreMemberChars (ms : List (String × Value)) : List Char := ms.flatMap fun m => ',' :: memberPart m

theorem moreMemberChars_cons (m : String × Value) (ms : List (String × Value)) :
    moreMemberChars (m :: ms) = ',' :: (memberPart m ++ moreMemberChars ms) := by
  simp [moreMemberChars]

theorem memberChars_cons : ∀ (m : String × Value) (ms : List (String × Value)),
    memberChars (m :: ms) = memberPart m ++ moreMemberChars ms
  | (key, v), [] => by simp [memberChars, memberPart, moreMemberChars]
  | (key, v), m :: ms => by
    rw [memberChars_cons_cons, memberChars_cons m ms, moreMemberChars_cons]
    simp [memberPart]

theorem endsValue_moreMemberChars (ms : List (String × Value)) (rest : List Char) :
    EndsValue (moreMemberChars ms ++ '\x7d' :: rest) := by
  cases ms with
  | nil => exact ⟨'\x7d', rest, rfl, rfl⟩
  | cons m ms => exact ⟨',', _, by rw [moreMemberChars_cons, List.cons_append], rfl⟩

theorem scan_member {m : String × Value} (hscan : ScansAs m.2) (hkey : (quoted m.1).length ≤ 1024)
    {rest : List Char} (hends : EndsValue rest) (h : Inline l (memberPart m ++ rest) ts (depth + 1))
    (hallowed : l.keyAllowed = true) (hbreak : ∀ y ∈ memberPart m, isBreak y = false) :
    ∃ l', Scans (memberPart m) l l' ∧ Inline l' rest (ts ++ memberParts m) (depth + 1) := by
  rw [memberPart, List.append_assoc] at h
  rw [memberPart] at hbreak
  obtain ⟨hbreakkey, hbreak⟩ := List.forall_mem_append.mp hbreak
  obtain ⟨l₁, hscankey, hl₁⟩ := scan_key h hallowed hkey hbreakkey
  obtain ⟨l₂, hvalue, hl₂⟩ := hscan l₁ rest _ depth hl₁ hends (List.forall_mem_cons.mp hbreak).2
  refine ⟨l₂, ?_, ?_⟩
  · have h := hscankey.trans hvalue
    rwa [List.append_assoc] at h
  · simpa [memberParts] using hl₂

theorem scan_moreMembers : ∀ (ms : List (String × Value)), (∀ m ∈ ms, ScansAs m.2) →
    (∀ m ∈ ms, (quoted m.1).length ≤ 1024) → ∀ (l : Layout) (rest : List Char) (ts : List Token),
    Inline l (moreMemberChars ms ++ '\x7d' :: rest) ts (depth + 1) →
    (∀ y ∈ moreMemberChars ms, isBreak y = false) →
    ∃ l', Scans (moreMemberChars ms) l l' ∧
      Inline l' ('\x7d' :: rest) (ts ++ moreMembers ms) (depth + 1)
  | [], _, _, l, rest, ts, h, _ => ⟨l, .refl l, by simpa [moreMemberChars, moreMembers] using h⟩
  | m :: ms, hscan, hkeys, l, rest, ts, h, hbreak => by
    obtain ⟨hm, hms⟩ := List.forall_mem_cons.mp hscan
    obtain ⟨hkey, hkeys⟩ := List.forall_mem_cons.mp hkeys
    rw [moreMemberChars_cons] at h hbreak ⊢
    obtain ⟨-, hbreak⟩ := List.forall_mem_cons.mp hbreak
    obtain ⟨hbreakm, hbreakms⟩ := List.forall_mem_append.mp hbreak
    rw [List.cons_append, List.append_assoc] at h
    obtain ⟨l₁, hcomma, hl₁, hallowed⟩ := scan_comma h
    obtain ⟨l₂, hmember, hl₂⟩ := scan_member hm hkey (endsValue_moreMemberChars ms rest) hl₁ hallowed
      hbreakm
    obtain ⟨l₃, hmore, hl₃⟩ := scan_moreMembers ms hms hkeys l₂ rest _ hl₂ hbreakms
    refine ⟨l₃, hcomma.trans (hmember.trans hmore), ?_⟩
    simpa [moreMembers_cons, comma] using hl₃

theorem scan_members {ms : List (String × Value)} (hscan : ∀ m ∈ ms, ScansAs m.2)
    (hkeys : ∀ m ∈ ms, (quoted m.1).length ≤ 1024) {rest : List Char}
    (h : Inline l (memberChars ms ++ '\x7d' :: rest) ts (depth + 1)) (hallowed : l.keyAllowed = true)
    (hbreak : ∀ y ∈ memberChars ms, isBreak y = false) :
    ∃ l', Scans (memberChars ms) l l' ∧
      Inline l' ('\x7d' :: rest) (ts ++ memberTokens ms) (depth + 1) := by
  cases ms with
  | nil => exact ⟨l, by rw [memberChars]; exact .refl l, by simpa [memberChars, memberTokens] using h⟩
  | cons m ms =>
    obtain ⟨hm, hms⟩ := List.forall_mem_cons.mp hscan
    obtain ⟨hkey, hkeys⟩ := List.forall_mem_cons.mp hkeys
    rw [memberChars_cons] at h hbreak ⊢
    obtain ⟨hbreakm, hbreakms⟩ := List.forall_mem_append.mp hbreak
    rw [List.append_assoc] at h
    obtain ⟨l₁, hmember, hl₁⟩ := scan_member hm hkey (endsValue_moreMemberChars ms rest) h hallowed
      hbreakm
    obtain ⟨l₂, hmore, hl₂⟩ := scan_moreMembers ms hms hkeys l₁ rest _ hl₁ hbreakms
    refine ⟨l₂, hmember.trans hmore, ?_⟩
    rw [memberTokens_cons, ← List.append_assoc]
    exact hl₂

/-! #### Brackets and what is between -/

theorem scan_list {vs : List Value} (hscan : ∀ v ∈ vs, ScansAs v) {rest : List Char}
    (h : Inline l ((Value.list vs true).chars ++ rest) ts depth)
    (hbreak : ∀ y ∈ (Value.list vs true).chars, isBreak y = false) :
    ∃ l', Scans (Value.list vs true).chars l l' ∧
      Inline l' rest (ts ++ (Value.list vs true).tokens) depth := by
  rw [Value.chars] at h hbreak ⊢
  obtain ⟨-, hbreak⟩ := List.forall_mem_cons.mp hbreak
  rw [List.cons_append, List.append_assoc] at h
  obtain ⟨l₁, hread₁, hl₁, -⟩ := read_opening h.fresh (.inl ⟨rfl, rfl⟩)
  obtain ⟨l₂, hitems, hl₂⟩ := scan_items hscan hl₁ (List.forall_mem_append.mp hbreak).1
  obtain ⟨l₃, hread₃, hl₃⟩ := read_closing hl₂.fresh (.inl ⟨rfl, rfl⟩)
  have hopening : Scans ['['] l l₁ := scans_token h (by decide) hread₁ (by simp)
  have hclosing : Scans [']'] l₂ l₃ := scans_token hl₂ (by decide) hread₃ (by simp)
  refine ⟨l₃, hopening.trans (hitems.trans hclosing), ?_⟩
  simpa [Value.tokens] using hl₃

theorem scan_record {ms : List (String × Value)} (hscan : ∀ m ∈ ms, ScansAs m.2)
    (hkeys : ∀ m ∈ ms, (quoted m.1).length ≤ 1024) {rest : List Char}
    (h : Inline l ((Value.record ms .closed).chars ++ rest) ts depth)
    (hbreak : ∀ y ∈ (Value.record ms .closed).chars, isBreak y = false) :
    ∃ l', Scans (Value.record ms .closed).chars l l' ∧
      Inline l' rest (ts ++ (Value.record ms .closed).tokens) depth := by
  rw [Value.chars] at h hbreak ⊢
  obtain ⟨-, hbreak⟩ := List.forall_mem_cons.mp hbreak
  rw [List.cons_append, List.append_assoc] at h
  obtain ⟨l₁, hread₁, hl₁, hallowed⟩ := read_opening h.fresh (.inr ⟨rfl, rfl⟩)
  obtain ⟨l₂, hmembers, hl₂⟩ := scan_members hscan hkeys hl₁ hallowed
    (List.forall_mem_append.mp hbreak).1
  obtain ⟨l₃, hread₃, hl₃⟩ := read_closing hl₂.fresh (.inr ⟨rfl, rfl⟩)
  have hopening : Scans ['\x7b'] l l₁ := scans_token h (by decide) hread₁ (by simp)
  have hclosing : Scans ['\x7d'] l₂ l₃ := scans_token hl₂ (by decide) hread₃ (by simp)
  refine ⟨l₃, hopening.trans (hmembers.trans hclosing), ?_⟩
  simpa [Value.tokens] using hl₃

theorem scansAs_word {v : Value} {x : Char} {w : List Char} (hchars : v.chars = x :: w)
    (htokens : v.tokens = [.scalar (String.ofList (x :: w)) .plain])
    (hx : x = 'n' ∨ x = 't' ∨ x = 'f') (hw : (x :: w).all isWordChar) : ScansAs v := by
  rintro l rest ts depth h ⟨y, r, rfl, hy⟩ hbreak
  rw [hchars] at h ⊢
  rw [htokens]
  obtain ⟨l', hread, hl'⟩ := read_word h.fresh hx hw hy
  have hstarts : startsToken x := by rcases hx with rfl | rfl | rfl <;> decide
  exact ⟨l', scans_token h hstarts hread (List.cons_ne_nil x w), hl'⟩

theorem scansAs {v : Value} (hv : Plain v) : ScansAs v := by
  induction hv with
  | null =>
    exact scansAs_word (by rw [Value.chars]) (by rw [Value.tokens]) (by decide) (by decide)
  | bool b =>
    cases b
    · exact scansAs_word (by rw [Value.chars]) (by rw [Value.tokens]) (by decide) (by decide)
    · exact scansAs_word (by rw [Value.chars]) (by rw [Value.tokens]) (by decide) (by decide)
  | text s =>
    intro l rest ts depth h _ hbreak
    rw [Value.chars] at h hbreak ⊢
    obtain ⟨l', hread, hl', -⟩ := read_string h.fresh hbreak
    have hquote : quoted s ++ rest = '"' :: (escaped s.toList ++ '"' :: rest) := by simp [quoted]
    rw [hquote] at h
    refine ⟨l', scans_token h (by decide) hread (by simp [quoted]), ?_⟩
    rw [Value.tokens]
    exact hl'
  | list hplain ih => exact fun l rest ts depth h _ hbreak => scan_list ih h hbreak
  | record hkeys hplain ih => exact fun l rest ts depth h _ hbreak => scan_record ih hkeys h hbreak

end

/-! ### Texts -/

/-- Lists and records. -/
inductive Compound : Value → Prop where
  | list (items : List Value) (closed : Bool) : Compound (.list items closed)
  | record (members : List (String × Value)) (ending : Ending Value) :
    Compound (.record members ending)

/-- At the end of the text no block is left to be ended. -/
theorem readAll_end {l : Layout} {ts : List Token} {depth : Nat} (h : Inline l [] ts depth)
    (fuel : Nat) :
    ∃ tokens, Layout.readAll (fuel + 1) l = some tokens ∧ tokens.toList = ts ++ [.streamEnd] := by
  have hskip : l.skipToToken (l.cursor.rest.length + 1) = l := by
    simp [Layout.skipToToken, Cursor.at?, h.rest, Cursor.skipWhile, Cursor.skipComment,
      Cursor.advance_zero, Cursor.readBreak?, Layout.moveTo]
  have hrest : l.fresh.cursor.rest = [] := h.rest
  obtain ⟨keys, hdrop, -⟩ := h.fresh.dropKey
  simp only [Layout.readAll, hskip, dropStaleKeys_eq h, Option.bind_eq_bind, Option.bind_some,
    h.fresh.closeBlocks, hrest, Layout.readEnd, hdrop]
  refine ⟨_, rfl, ?_⟩
  simp [Layout.emit, Layout.allowKey, h.fresh.tokens]

theorem tokens?_chars {v : Value} (hv : Plain v) (hcompound : Compound v)
    (hallowed : ∀ y ∈ v.chars, isAllowed y = true) (hbreak : ∀ y ∈ v.chars, isBreak y = false) :
    tokens? (String.ofList v.chars) = some (v.tokens ++ [.streamEnd]) := by
  have hfree : Free [none] 0 := ⟨rfl, by simp⟩
  have hstart : Inline { cursor := { rest := v.chars } } (v.chars ++ []) [] 0 :=
    ⟨by simp, rfl, rfl, by simp, rfl, rfl, rfl, hfree⟩
  have hscan : ∃ l', Scans v.chars { cursor := { rest := v.chars } } l' ∧
      Inline l' [] ([] ++ v.tokens) 0 := by
    cases hv with
    | null | bool | text => cases hcompound
    | list hplain => exact scan_list (fun v h => scansAs (hplain v h)) hstart hbreak
    | record hkeys hplain => exact scan_record (fun m h => scansAs (hplain m h)) hkeys hstart hbreak
  obtain ⟨l', ⟨n, hn, hread⟩, hl'⟩ := hscan
  obtain ⟨tokens, hend, htokens⟩ := readAll_end hl' (v.chars.length + 1 - n)
  have hall : v.chars.all isAllowed = true := List.all_eq_true.mpr hallowed
  have hfuel : v.chars.length + 2 = v.chars.length + 1 - n + 1 + n := by omega
  simp only [tokens?, String.toList_ofList, String.length_ofList, hall, hfuel, hread, hend,
    Bool.not_true, Bool.false_eq_true, if_false, Option.bind_eq_bind, Option.bind_some]
  simp [htokens]

/-- A list or a record that JSON writes with characters that YAML allows, and without breaks, is
    read from its text as the node that it is. -/
theorem readText_chars {v : Value} (hv : Plain v) (hcompound : Compound v)
    (hallowed : ∀ y ∈ v.chars, isAllowed y = true) (hbreak : ∀ y ∈ v.chars, isBreak y = false) :
    readText (String.ofList v.chars) = some { root := v.node } := by
  rw [readText, tokens?_chars hv hcompound hallowed hbreak, Option.bind_some, readTokens_tokens hv]

/-- A text with a character that YAML does not allow is no YAML. -/
theorem readText_eq_none {s : String} {y : Char} (hy : y ∈ s.toList) (hallowed : isAllowed y = false) :
    readText s = none := by
  have hall : s.toList.all isAllowed = false :=
    List.all_eq_false.mpr ⟨y, hy, by simp [hallowed]⟩
  simp [readText, tokens?, hall]

end Schematic.Yaml
