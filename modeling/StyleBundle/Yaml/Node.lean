import StyleBundle.Yaml.Tag
import StyleBundle.Yaml.Tokens

/-!
# The nodes of a document

A document is a graph: an alias is one more edge to the node that it names, even from inside that
node. So nodes are held in a row, and what a collection holds are their places in it.
-/

namespace StyleBundle.Yaml

/-- What a node holds. -/
inductive Content
  /-- A text. -/
  | scalar (text : String)
  /-- Nodes in a row. -/
  | sequence (items : List Nat)
  /-- Pairs of a key and a value. -/
  | mapping (entries : List (Nat × Nat))
  deriving DecidableEq, Repr

/-- A node of a document. -/
structure Node where
  /-- What kind of value it is. -/
  tag : Tag
  /-- What it holds. -/
  content : Content
  deriving DecidableEq, Repr

/-- A document. -/
structure Graph where
  /-- The nodes. -/
  nodes : Array Node
  /-- The place of the outermost node. -/
  root : Nat

/-- The node at a place. -/
def Graph.node (g : Graph) (id : Nat) : Node := g.nodes.getD id ⟨.null, .scalar ""⟩

/-- A document in the making. -/
structure Draft where
  /-- The tokens that are left. -/
  tokens : List Token
  /-- What is wrong behind them. -/
  fault : Option Fault
  /-- The nodes so far. -/
  nodes : Array Node
  /-- The nodes that have names. -/
  anchors : List (String × Nat)
  /-- What the handles of tags stand for. -/
  handles : List (String × String)

/-- A step in making a document. -/
abbrev Drafting (α : Type) := StateT Draft Result α

namespace Drafting

/-- Refuses the text. -/
def fail {α : Type} (reason : String) : Drafting α := fun _ => refuse reason

/-- The next token, or nothing at the end of the text. -/
def peek : Drafting (Option Token) := fun d =>
  match d.tokens, d.fault with
  | token :: _, _ => .ok (some token, d)
  | [], none => .ok (none, d)
  | [], some fault => .error fault

/-- Passes over the next token. -/
def skip : Drafting Unit := modify fun d => { d with tokens := d.tokens.drop 1 }

/-- Passes over the next token if it is the given one, and tells whether it was. -/
def accept (token : Token) : Drafting Bool := do
  if (← peek) = some token then
    skip
    return true
  else return false

/-- A further node, not yet filled, under a name perhaps. A name is given once. -/
def reserve (name : Option String) : Drafting Nat := do
  let d ← get
  let id := d.nodes.size
  let anchors ←
    match name with
    | none => pure d.anchors
    | some name =>
      if (d.anchors.lookup name).isSome then fail "found duplicate anchor"
      else pure ((name, id) :: d.anchors)
  set { d with nodes := d.nodes.push ⟨.null, .scalar ""⟩, anchors }
  return id

/-- Fills a node. -/
def fill (id : Nat) (node : Node) : Drafting Unit :=
  modify fun d => { d with nodes := d.nodes.setIfInBounds id node }

/-- A further node. -/
def add (name : Option String) (node : Node) : Drafting Nat := do
  let id ← reserve name
  fill id node
  return id

/-- A further node for a place where nothing stands. -/
def empty : Drafting Nat := add none ⟨.null, .scalar ""⟩

/-- The anchor that stands here. -/
def anchor? : Drafting (Option String) := do
  match ← peek with
  | some (.anchor name) =>
    skip
    return some name
  | _ => return none

/-- The tag that stands here, with its handle expanded. -/
def tag? : Drafting (Option (Option String × String)) := do
  match ← peek with
  | some (.tag handle suffix) =>
    skip
    return some (handle, suffix)
  | _ => return none

/-- The anchor and the tag of the node that follows, in either order. A lone exclamation mark is
a tag that says nothing more than that there is one. -/
def properties : Drafting (Option String × Option String) := do
  let before ← anchor?
  let tag ← tag?
  let name ← if before.isNone ∧ tag.isSome then anchor? else pure before
  match tag with
  | none => return (name, none)
  | some (none, suffix) => return (name, some suffix)
  | some (some handle, suffix) =>
    match (← get).handles.lookup handle with
    | none => fail "found undefined tag handle"
    | some expansion => return (name, some (expansion ++ suffix))

/-- The tag of a collection: the one given, or the usual one. -/
def tagOf (given : Option String) (usual : Tag) : Tag :=
  match given with
  | none | some "!" => usual
  | some name => .ofName name

/-- The tag of a scalar. One that is plain and has no tag gets the tag that its form implies. -/
def scalarTag (given : Option String) (text : String) (plain : Bool) : Tag :=
  match given with
  | none => if plain then .ofPlain text else .str
  | some "!" => .ofPlain text
  | some name => .ofName name

/-- A further node with children, which may refer back to it. -/
def collection {α : Type} (name : Option String) (tag : Tag) (content : α → Content)
    (children : Drafting α) : Drafting Nat := do
  let id ← reserve name
  let held ← children
  fill id ⟨tag, content held⟩
  return id

mutual

/-- Reads a node. Blocks may start here only where `block` says so, and an entry starts a sequence
without a block of its own where `entries` does. -/
def node (block entries : Bool) : (fuel : Nat) → Drafting Nat
  | 0 => fail "the document is nested too deep"
  | fuel + 1 => do
    match ← peek with
    | some (.alias name) =>
      skip
      match (← get).anchors.lookup name with
      | some id => return id
      | none => fail "found undefined alias"
    | _ =>
      let (name, tag) ← properties
      match ← peek with
      | some (.scalar text plain) =>
        skip
        add name ⟨scalarTag tag text plain, .scalar text⟩
      | some .openSequence =>
        skip
        collection name (tagOf tag .seq) .sequence (flowEntries true fuel)
      | some .openMapping =>
        skip
        collection name (tagOf tag .map) .mapping (flowPairs true fuel)
      | next =>
        if entries ∧ next = some .entry then
          collection name (tagOf tag .seq) .sequence (looseEntries fuel)
        else if block ∧ next = some .blockSequence then
          skip
          collection name (tagOf tag .seq) .sequence (blockEntries fuel)
        else if block ∧ next = some .blockMapping then
          skip
          collection name (tagOf tag .map) .mapping (blockPairs fuel)
        else if name.isSome ∨ tag.isSome then add name ⟨scalarTag tag "" true, .scalar ""⟩
        else fail "expected the node content"

/-- Reads a node, unless one of the given tokens or the end comes next, where nothing stands. -/
def nodeUnless (enders : List Token) (block entries : Bool) : (fuel : Nat) → Drafting Nat
  | 0 => fail "the document is nested too deep"
  | fuel + 1 => do
    match ← peek with
    | some token => if token ∈ enders then empty else node block entries fuel
    | none => node block entries fuel

/-- Reads the entries of a block sequence. -/
def blockEntries : (fuel : Nat) → Drafting (List Nat)
  | 0 => fail "the document is nested too deep"
  | fuel + 1 => do
    if ← accept .entry then
      let item ← nodeUnless [.entry, .blockEnd] true false fuel
      return item :: (← blockEntries fuel)
    else if ← accept .blockEnd then return []
    else fail "expected <block end>"

/-- Reads the entries of a sequence without a block of its own. -/
def looseEntries : (fuel : Nat) → Drafting (List Nat)
  | 0 => fail "the document is nested too deep"
  | fuel + 1 => do
    if ← accept .entry then
      let item ← nodeUnless [.entry, .key, .value, .blockEnd] true false fuel
      return item :: (← looseEntries fuel)
    else return []

/-- Reads the pairs of a block mapping. A key may lack its value, but no value its key's mark. -/
def blockPairs : (fuel : Nat) → Drafting (List (Nat × Nat))
  | 0 => fail "the document is nested too deep"
  | fuel + 1 => do
    if ← accept .key then
      let key ← nodeUnless [.key, .value, .blockEnd] true true fuel
      let value ←
        if ← accept .value then nodeUnless [.key, .value, .blockEnd] true true fuel else empty
      return (key, value) :: (← blockPairs fuel)
    else if ← accept .blockEnd then return []
    else fail "expected <block end>"

/-- Reads the entries between brackets. A pair is a mapping of its own. -/
def flowEntries (first : Bool) : (fuel : Nat) → Drafting (List Nat)
  | 0 => fail "the document is nested too deep"
  | fuel + 1 => do
    if ← accept .closeSequence then return []
    else if ← (if first then pure true else accept .comma) then
      if ← accept .closeSequence then return []
      else if ← accept .key then
        let item ← collection none .map .mapping (flowPair fuel)
        return item :: (← flowEntries false fuel)
      else
        let item ← node false false fuel
        return item :: (← flowEntries false fuel)
    else fail "expected ',' or ']'"

/-- Reads the one pair of a mapping that stands among the entries between brackets. -/
def flowPair : (fuel : Nat) → Drafting (List (Nat × Nat))
  | 0 => fail "the document is nested too deep"
  | fuel + 1 => do
    let key ← nodeUnless [.value, .comma, .closeSequence] false false fuel
    let value ←
      if ← accept .value then nodeUnless [.comma, .closeSequence] false false fuel else empty
    return [(key, value)]

/-- Reads the pairs between braces. -/
def flowPairs (first : Bool) : (fuel : Nat) → Drafting (List (Nat × Nat))
  | 0 => fail "the document is nested too deep"
  | fuel + 1 => do
    if ← accept .closeMapping then return []
    else if ← (if first then pure true else accept .comma) then
      if ← accept .closeMapping then return []
      else if ← accept .key then
        let key ← nodeUnless [.value, .comma, .closeMapping] false false fuel
        let value ←
          if ← accept .value then nodeUnless [.comma, .closeMapping] false false fuel else empty
        return (key, value) :: (← flowPairs false fuel)
      else
        let key ← node false false fuel
        let value ← empty
        return (key, value) :: (← flowPairs false fuel)
    else fail "expected ',' or closing brace"

end

/-! ## Documents -/

/-- The handles that every document knows. -/
def usualHandles : List (String × String) := [("!", "!"), ("!!", Tag.standard)]

/-- Reads the directives of a document. The version is given once at most and is of the first
family, and a handle is defined once at most. -/
def directives (versioned : Bool) : (fuel : Nat) → Drafting Unit
  | 0 => pure ()
  | fuel + 1 => do
    match ← peek with
    | some (.directive value) =>
      skip
      match value with
      | .version major _ =>
        if versioned then fail "found duplicate YAML directive"
        else if major ≠ 1 then fail "found incompatible YAML document"
        else directives true fuel
      | .handle name expansion =>
        if ((← get).handles.lookup name).isSome then fail "duplicate tag handle"
        else
          modify fun d => { d with handles := (name, expansion) :: d.handles }
          directives versioned fuel
      | .other => directives versioned fuel
    | _ => return ()

/-- Passes over the marks at the end of a document. -/
def documentEnds : (fuel : Nat) → Drafting Unit
  | 0 => pure ()
  | fuel + 1 => do if ← accept .documentEnd then documentEnds fuel else return ()

/-- Reads the document that the text holds, if it holds one. The first document may start without
a mark, and a second one is refused. -/
def document (fuel : Nat) : Drafting (Option Nat) := do
  let root? ←
    match ← peek with
    | none => return none
    | some (.directive _) | some .documentStart => do
      directives false fuel
      modify fun d => { d with handles := d.handles ++ usualHandles }
      if ← accept .documentStart then
        match ← peek with
        | none | some (.directive _) | some .documentStart | some .documentEnd => some <$> empty
        | _ => some <$> node true false fuel
      else fail "expected '<document start>'"
    | _ => do
      modify fun d => { d with handles := usualHandles }
      some <$> node true false fuel
  documentEnds fuel
  match ← peek with
  | none => return root?
  | some _ => fail "expected a single document in the stream"

end Drafting

/-- The graph of the document in a text, if there is one. -/
def Graph.read? (text : List Char) : Result (Option Graph) := do
  let (tokens, fault) := tokens text
  let draft : Draft := ⟨tokens, fault, #[], [], []⟩
  let (root?, draft) ← (Drafting.document (4 * tokens.length + 8)).run draft
  return root?.map fun root => ⟨draft.nodes, root⟩

end StyleBundle.Yaml
