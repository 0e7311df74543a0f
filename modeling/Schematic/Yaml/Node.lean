import Schematic.Yaml.Layout

/-! The nodes of a YAML document, built from its tokens. A reference stays a reference: what it names
    may come later in the text, when one name is given to several nodes, so it is looked up when the
    node is used. -/

namespace Schematic.Yaml

inductive Node where
  /-- The contents of an empty text. -/
  | void
  | scalar (text : String) (style : Style) (tag : Option String)
  | sequence (items : List Node)
  | mapping (entries : List (Node × Node))
  /-- What the anchor of this number marks. -/
  | ref (anchor : Nat)

/-- What an empty place in the text stands for. -/
def Node.empty : Node := .scalar "" .plain none

/-- Anchors and what they mark. Each place that has an anchor has a number of its own; the number of
    an anchor is that of the places counted by name, so that a name used again may share its number
    with another name, and the place that comes later in the text wins. -/
structure Anchors where
  /-- The number for each name. -/
  names : List (String × Nat) := []
  /-- The place for each number, the latest first. -/
  places : List (Nat × Nat) := []
  /-- The node at each place. -/
  nodes : List (Nat × Node) := []

namespace Anchors

/-- Notes an anchor in front of a node; gives the number of the place. -/
def mark (a : Anchors) (name : String) : Nat × Anchors :=
  let number := a.names.length
  let place := a.places.length
  (place,
    { a with
      names := (name, number) :: a.names.filter (·.1 ≠ name)
      places := (number, place) :: a.places })

/-- Notes the node at a place. -/
def fill (a : Anchors) (place : Option Nat) (n : Node) : Anchors :=
  match place with
  | none => a
  | some p => { a with nodes := (p, n) :: a.nodes }

/-- The node that a reference means; any other node means itself. -/
def resolve (a : Anchors) : Node → Option Node
  | .ref number => do a.nodes.lookup (← a.places.lookup number)
  | n => some n

end Anchors

/-- A document with the anchors in it. -/
structure Content where
  root : Node
  anchors : Anchors := {}

/-! ### Directives -/

/-- What tag handles stand for. -/
abbrev Handles := List (String × String)

/-- The handles that every document has. -/
def Handles.standard : Handles := [("!", "!"), ("!!", "tag:yaml.org,2002:")]

/-- The tag that is written with a handle, if the handle is known. -/
def Handles.expand (hs : Handles) (handle rest : String) : Option String :=
  if handle.isEmpty then some rest else (hs.lookup handle).map (· ++ rest)

/-- Reads the directives of a document. The version is given once at most and is 1.1 or 1.2, and no
    handle is given twice. -/
def readDirectives (versioned : Bool) (hs : Handles) : List Token → Option (Handles × List Token)
  | .version major minor :: ts =>
    if versioned || major ≠ 1 || !(minor = 1 || minor = 2) then none else readDirectives true hs ts
  | .tagHandle handle expansion :: ts =>
    if (hs.lookup handle).isSome then none
    else readDirectives versioned (hs ++ [(handle, expansion)]) ts
  | ts => some (hs ++ Handles.standard, ts)

/-! ### Nodes -/

/-- Where nodes are read: what tag handles stand for, the anchors so far and the tokens left. -/
structure Reading where
  handles : Handles
  anchors : Anchors
  tokens : List Token

namespace Reading

def after (r : Reading) (ts : List Token) : Reading := { r with tokens := ts }

/-- Anchor and tag in front of a node, in any order. -/
def properties (r : Reading) : Option (Option Nat × Option String × Reading) :=
  let anchored (name : String) (ts : List Token) : Nat × Reading :=
    let (place, anchors) := r.anchors.mark name
    (place, { r with anchors, tokens := ts })
  match r.tokens with
  | .anchor name :: .tag handle rest :: ts => do
    let tag ← r.handles.expand handle rest
    let (place, r) := anchored name ts
    pure (some place, some tag, r)
  | .tag handle rest :: .anchor name :: ts => do
    let tag ← r.handles.expand handle rest
    let (place, r) := anchored name ts
    pure (some place, some tag, r)
  | .anchor name :: ts =>
    let (place, r) := anchored name ts
    some (some place, none, r)
  | .tag handle rest :: ts => do
    let tag ← r.handles.expand handle rest
    pure (none, some tag, r.after ts)
  | _ => some (none, none, r)

end Reading

/-- The token ends a key or a value of a block mapping. -/
def Token.endsBlockPart : Token → Bool
  | .key | .value | .blockEnd => true
  | _ => false

/-- The token ends an item of a block sequence. -/
def Token.endsBlockItem : Token → Bool
  | .blockEntry | .blockEnd => true
  | _ => false

/-- The token ends an item of a block sequence that is not indented. -/
def Token.endsOutdentedItem : Token → Bool
  | .blockEntry | .key | .value | .blockEnd => true
  | _ => false

/-- The token ends a key or a value of a mapping between braces. -/
def Token.endsFlowPart : Token → Bool
  | .flowEntry | .flowMappingEnd => true
  | _ => false

/-- The token ends a key or a value that stands between brackets without braces of its own. -/
def Token.endsPairPart : Token → Bool
  | .flowEntry | .flowSequenceEnd => true
  | _ => false

mutual

/-- Reads a node. In block context it may be a block; where `outdented` holds, also a sequence whose
    dashes are not indented. -/
def readNode (block outdented : Bool) : Nat → Reading → Option (Node × Reading)
  | 0, _ => none
  | fuel + 1, r =>
    match r.tokens with
    | .ref name :: ts => do pure (.ref (← r.anchors.names.lookup name), r.after ts)
    | _ => do
      let (place, tag, r) ← r.properties
      let (n, r) ← readContent block outdented (place.isSome || tag.isSome) tag fuel r
      pure (n, { r with anchors := r.anchors.fill place n })

/-- Reads a node from behind its properties. -/
def readContent (block outdented marked : Bool) (tag : Option String) :
    Nat → Reading → Option (Node × Reading)
  | 0, _ => none
  | fuel + 1, r =>
    match r.tokens with
    | .blockEntry :: ts =>
      if outdented then do
        let (items, r) ← readOutdented fuel [] (r.after (.blockEntry :: ts))
        pure (.sequence items, r)
      else if marked then some (.scalar "" .plain tag, r)
      else none
    | .scalar text style :: ts =>
      some (.scalar text style (if tag = some "!" then none else tag), r.after ts)
    | .flowSequence :: ts => do
      let (items, r) ← readFlowItems true fuel [] (r.after ts)
      pure (.sequence items, r)
    | .flowMapping :: ts => do
      let (entries, r) ← readFlowEntries true fuel [] (r.after ts)
      pure (.mapping entries, r)
    | .blockSequence :: ts =>
      if block then do
        let (items, r) ← readBlockItems fuel [] (r.after ts)
        pure (.sequence items, r)
      else if marked then some (.scalar "" .plain tag, r)
      else none
    | .blockMapping :: ts =>
      if block then do
        let (entries, r) ← readBlockEntries fuel [] (r.after ts)
        pure (.mapping entries, r)
      else if marked then some (.scalar "" .plain tag, r)
      else none
    | _ => if marked then some (.scalar "" .plain tag, r) else none

/-- Reads a node, or nothing where a token follows that ends the place of the node. -/
def readNodeUnless (ends : Token → Bool) (block outdented : Bool) :
    Nat → Reading → Option (Node × Reading)
  | 0, _ => none
  | fuel + 1, r =>
    if r.tokens.head?.any ends then some (.empty, r) else readNode block outdented fuel r

/-- Reads the items of a block sequence; `done` are those before, last first. -/
def readBlockItems : Nat → List Node → Reading → Option (List Node × Reading)
  | 0, _, _ => none
  | fuel + 1, done, r =>
    match r.tokens with
    | .blockEntry :: ts => do
      let (n, r) ← readNodeUnless Token.endsBlockItem true false fuel (r.after ts)
      readBlockItems fuel (n :: done) r
    | .blockEnd :: ts => some (done.reverse, r.after ts)
    | _ => none

/-- Reads the items of a sequence that is not indented. -/
def readOutdented : Nat → List Node → Reading → Option (List Node × Reading)
  | 0, _, _ => none
  | fuel + 1, done, r =>
    match r.tokens with
    | .blockEntry :: ts => do
      let (n, r) ← readNodeUnless Token.endsOutdentedItem true false fuel (r.after ts)
      readOutdented fuel (n :: done) r
    | _ => some (done.reverse, r)

/-- Reads the entries of a block mapping. -/
def readBlockEntries : Nat → List (Node × Node) → Reading → Option (List (Node × Node) × Reading)
  | 0, _, _ => none
  | fuel + 1, done, r =>
    match r.tokens with
    | .blockEnd :: ts => some (done.reverse, r.after ts)
    | .key :: ts => do
      let (k, r) ← readNodeUnless Token.endsBlockPart true true fuel (r.after ts)
      let (v, r) ← readBlockValue fuel r
      readBlockEntries fuel ((k, v) :: done) r
    | _ => none

/-- Reads the value of an entry of a block mapping, which may be missing. -/
def readBlockValue : Nat → Reading → Option (Node × Reading)
  | 0, _ => none
  | fuel + 1, r =>
    match r.tokens with
    | .value :: ts => readNodeUnless Token.endsBlockPart true true fuel (r.after ts)
    | _ => some (.empty, r)

/-- Reads the items between brackets. -/
def readFlowItems (first : Bool) : Nat → List Node → Reading → Option (List Node × Reading)
  | 0, _, _ => none
  | fuel + 1, done, r =>
    match r.tokens with
    | .flowSequenceEnd :: ts => some (done.reverse, r.after ts)
    | ts => do
      let ts ← match first, ts with
        | true, ts => some ts
        | false, .flowEntry :: ts => some ts
        | false, _ => none
      match ts with
      | .flowSequenceEnd :: ts => pure (done.reverse, r.after ts)
      | .key :: ts => do
        let (k, v, r) ← readPair fuel (r.after ts)
        readFlowItems false fuel (.mapping [(k, v)] :: done) r
      | ts => do
        let (n, r) ← readNode false false fuel (r.after ts)
        readFlowItems false fuel (n :: done) r

/-- Reads an entry that stands between brackets without braces of its own. Where its key is missing
    the token after it is passed over. -/
def readPair : Nat → Reading → Option (Node × Node × Reading)
  | 0, _ => none
  | fuel + 1, r => do
    let (k, r) ← match r.tokens with
      | [] => none
      | t :: ts =>
        if t = .value || t.endsPairPart then some (.empty, r.after ts) else readNode false false fuel r
    match r.tokens with
    | .value :: ts => do
      let (v, r) ← readNodeUnless Token.endsPairPart false false fuel (r.after ts)
      pure (k, v, r)
    | _ => pure (k, .empty, r)

/-- Reads the entries between braces. -/
def readFlowEntries (first : Bool) :
    Nat → List (Node × Node) → Reading → Option (List (Node × Node) × Reading)
  | 0, _, _ => none
  | fuel + 1, done, r =>
    match r.tokens with
    | .flowMappingEnd :: ts => some (done.reverse, r.after ts)
    | ts => do
      let ts ← match first, ts with
        | true, ts => some ts
        | false, .flowEntry :: ts => some ts
        | false, _ => none
      match ts with
      | .flowMappingEnd :: ts => pure (done.reverse, r.after ts)
      | .key :: ts => do
        let (k, r) ← readNodeUnless (fun t => t = .value || t.endsFlowPart) false false fuel (r.after ts)
        match r.tokens with
        | .value :: ts => do
          let (v, r) ← readNodeUnless Token.endsFlowPart false false fuel (r.after ts)
          readFlowEntries false fuel ((k, v) :: done) r
        | _ => readFlowEntries false fuel ((k, .empty) :: done) r
      | ts => do
        let (k, r) ← readNode false false fuel (r.after ts)
        readFlowEntries false fuel ((k, .empty) :: done) r

end

/-! ### Documents -/

/-- The token stands where the contents of a document are missing. -/
def Token.endsDocument : Token → Bool
  | .version .. | .tagHandle .. | .documentStart | .documentEnd | .streamEnd => true
  | _ => false

/-- The token is a directive or begins a document. -/
def Token.startsDocument : Token → Bool
  | .version .. | .tagHandle .. | .documentStart => true
  | _ => false

/-- Reads the contents of a document that was begun by a mark. -/
def readMarked (fuel : Nat) (ts : List Token) : Option (Node × Reading) := do
  let (handles, ts) ← readDirectives false [] ts
  match ts with
  | .documentStart :: ts =>
    let r : Reading := { handles, anchors := {}, tokens := ts }
    if ts.head?.any Token.endsDocument then pure (.empty, r) else readNode true false fuel r
  | _ => none

/-- The content of a text that holds one document. A text without any holds an empty one. -/
def readTokens (ts : List Token) : Option Content := do
  let fuel := 8 * ts.length + 8
  if ts = [.streamEnd] then return { root := .void }
  let (root, r) ←
    if ts.head?.any Token.startsDocument then readMarked fuel ts
    else readNode true false fuel { handles := Handles.standard, anchors := {}, tokens := ts }
  if r.tokens.dropWhile (· = .documentEnd) = [.streamEnd] then pure { root, anchors := r.anchors }
  else none

/-- The content of a text that holds one document, or nothing if it is not such a text. -/
def readText (s : String) : Option Content := (tokens? s).bind readTokens

end Schematic.Yaml
