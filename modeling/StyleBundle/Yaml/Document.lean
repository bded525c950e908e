import StyleBundle.Yaml.Node
import StyleBundle.Yaml.Scalar

/-!
# The data of a document

The graph of a document stands for data. Values of merge keys are put before the entries of their
mapping, which override them. All nodes are checked, outer ones before what they hold; the first
fault counts. A node may hold itself, so the data are unfolded to a fixed depth only, which is
deeper than any setting goes.
-/

namespace StyleBundle.Yaml

open Settings (Datum)

namespace Graph

/-- Whether a node is a key that stands for the value of its mapping. -/
def isValueKey (g : Graph) (id : Nat) : Bool := (g.node id).tag = .value

/-- The text of a scalar, or of the value that stands for a mapping. -/
def scalarText (g : Graph) : (fuel : Nat) → (id : Nat) → Result String
  | 0, _ => refuse "expected a scalar node"
  | fuel + 1, id =>
    match (g.node id).content with
    | .scalar text => .ok text
    | .mapping entries =>
      match entries.find? fun (key, _) => g.isValueKey key with
      | some (_, value) => g.scalarText fuel value
      | none => refuse "expected a scalar node, but found a mapping"
    | .sequence _ => refuse "expected a scalar node, but found a sequence"

/-- The number of steps after which a walk along the graph has met every node. -/
def fuel (g : Graph) : Nat := g.nodes.size + 1

/-- The results of a check of all items, in their order. -/
def forEach {α β : Type} (f : α → Result β) : List α → Result (List β)
  | [] => .ok []
  | a :: rest => do
    let b ← f a
    return b :: (← forEach f rest)

/-- The entries of a mapping with those of its merge keys before its own. Of the mappings in a
list that is merged, later ones come first. A mapping that is already being merged gives its own
entries only. -/
def entries (g : Graph) (within : List Nat) : (fuel : Nat) → (id : Nat) → Result (List (Nat × Nat))
  | 0, _ => .ok []
  | fuel + 1, id =>
    match (g.node id).content with
    | .mapping pairs => do
      let own := pairs.filter fun (key, _) => (g.node key).tag ≠ .merge
      if id ∈ within then return own
      else
        let mapping (id : Nat) : Result (List (Nat × Nat)) :=
          match (g.node id).content with
          | .mapping _ => g.entries (id :: within) fuel id
          | _ => refuse "expected a mapping for merging"
        let merged ← forEach
          (fun (_, value) =>
            match (g.node value).content with
            | .sequence items => (List.flatten ∘ List.reverse) <$> forEach mapping items
            | _ => mapping value)
          (pairs.filter fun (key, _) => (g.node key).tag = .merge)
        return merged.flatten ++ own
    | _ => refuse "expected a mapping node"

/-- The entries of a mapping, with merge keys resolved. -/
def merged (g : Graph) (id : Nat) : Result (List (Nat × Nat)) := g.entries [] g.fuel id

/-- Whether the value of a tag is a collection. -/
def isCollection (tag : Tag) : Bool := tag ∈ [.seq, .map, .set, .omap, .pairs]

/-- The value of a node that is no collection. -/
def scalar (g : Graph) (id : Nat) : Result Datum :=
  let node := g.node id
  match node.tag, node.content with
  | .merge, _ | .value, _ | .other _, _ => refuse "could not determine a constructor for the tag"
  | tag, _ => do Scalar.value tag (← g.scalarText g.fuel id)

/-- The value of a node that is the key of a mapping. Collections are no keys. -/
def keyOf (g : Graph) (id : Nat) : Result Datum :=
  let node := g.node id
  match node.tag, node.content with
  | .value, .scalar text => .ok (.text text)
  | tag, _ => if isCollection tag then refuse "found unhashable key" else g.scalar id

/-- The single pairs of the items of a sequence. -/
def pairsOf (g : Graph) (items : List Nat) : Result (List (Nat × Nat)) :=
  forEach
    (fun id =>
      match (g.node id).content with
      | .mapping [pair] => .ok pair
      | _ => refuse "expected a mapping with a single item")
    items

/-! ## Checking -/

/-- Checks a node that is no collection, and leaves collections for later. -/
def checkLater (g : Graph) (id : Nat) : Result (List Nat) :=
  if isCollection (g.node id).tag then .ok [id] else (fun _ => []) <$> g.scalar id

/-- Checks the pairs of a mapping or the like, each key before its value, and gives the
collections that are left. -/
def checkPairs (g : Graph) (key : Nat → Result (List Nat)) (pairs : List (Nat × Nat)) :
    Result (List Nat) :=
  List.flatten <$> forEach
    (fun (k, value) => do
      let before ← key k
      return before ++ (← g.checkLater value))
    pairs

/-- Checks a collection, but not the collections in it, which it gives. -/
def checkCollection (g : Graph) (id : Nat) : Result (List Nat) :=
  let node := g.node id
  match node.tag, node.content with
  | .seq, .sequence items => List.flatten <$> forEach g.checkLater items
  | .omap, .sequence items | .pairs, .sequence items => do
    let checked ← forEach
      (fun item => do
        let pairs ← g.pairsOf [item]
        g.checkPairs g.checkLater pairs)
      items
    return checked.flatten
  | .map, _ | .set, _ => do
    let pairs ← g.merged id
    g.checkPairs (fun key => (fun _ => []) <$> g.keyOf key) pairs
  | _, _ => refuse "expected a sequence node"

/-- Checks collections and then the collections in them that are not checked yet. -/
def checkAll (g : Graph) : (fuel : Nat) → (seen waiting : List Nat) → Result Unit
  | 0, _, _ => .ok ()
  | fuel + 1, seen, waiting =>
    match waiting.eraseDups.filter (· ∉ seen) with
    | [] => .ok ()
    | now => do
      let later ← forEach g.checkCollection now
      g.checkAll fuel (seen ++ now) later.flatten

/-- Checks all nodes that belong to the data. -/
def check (g : Graph) : Result Unit := do
  let waiting ← g.checkLater g.root
  g.checkAll g.fuel [] waiting

/-! ## Unfolding -/

/-- Whether two keys are the same. Truth values and numbers are compared by what they amount to. -/
def sameKey (a b : Datum) : Bool :=
  let number? : Datum → Option (Int ⊕ Number.Binary64)
    | .bool b => some (.inl (if b then 1 else 0))
    | .int n => some (.inl n)
    | .float x =>
      match x.toInt? with
      | some n => some (.inl n)
      | none => some (.inr x)
    | _ => none
  match number? a, number? b with
  | some m, some n => m = n
  | none, none =>
    match a, b with
    | .null, .null => true
    | .text s, .text t => s = t
    | .bytes s, .bytes t => s = t
    | .moment s, .moment t => s = t
    | _, _ => false
  | _, _ => false

/-- A row of entries with one more. The value of a key that is there is replaced. -/
def putEntry (key value : Datum) : List (Datum × Datum) → List (Datum × Datum)
  | [] => [(key, value)]
  | (k, v) :: rest =>
    if sameKey k key then (k, value) :: rest else (k, v) :: putEntry key value rest

/-- The data of a node to a depth, below which collections are empty. The nodes are those of a
checked graph, so every fault that could be met has been reported. -/
def datum (g : Graph) : (depth : Nat) → (id : Nat) → Datum
  | 0, id =>
    match (g.node id).tag with
    | .map => .mapping []
    | .set => .set []
    | tag => if isCollection tag then .list [] else (g.scalar id).toOption.getD .null
  | depth + 1, id =>
    let node := g.node id
    let pairs := (g.merged id).toOption.getD []
    let key (id : Nat) : Datum := (g.keyOf id).toOption.getD .null
    match node.tag, node.content with
    | .map, _ =>
      .mapping (pairs.foldl (fun t (k, v) => putEntry (key k) (g.datum depth v) t) [])
    | .set, _ =>
      .set ((pairs.foldl (fun t (k, _) => putEntry (key k) .null t) []).map Prod.fst)
    | .seq, .sequence items => .list (items.map (g.datum depth))
    | tag, .sequence items =>
      if isCollection tag then
        .list (((g.pairsOf items).toOption.getD []).map fun (k, v) =>
          .list [g.datum depth k, g.datum depth v])
      else (g.scalar id).toOption.getD .null
    | _, _ => (g.scalar id).toOption.getD .null

end Graph

/-- How deep data are unfolded: to the items of the values of fields, and a little further. -/
def depth : Nat := 5

/-- The data that a text of YAML holds. A text without a document holds nothing. -/
def read (text : String) : Result Datum := do
  match ← Graph.read? text.toList with
  | none => return .null
  | some g =>
    g.check
    return g.datum depth g.root

end StyleBundle.Yaml
