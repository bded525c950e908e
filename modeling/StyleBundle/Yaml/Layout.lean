import StyleBundle.Yaml.Token

/-!
# Indentation and simple keys

A key needs no mark of its own: what stands before a colon on one line was a key. So the tokens
read so far come with the places at which a key may have started, one for each depth of brackets,
and a colon puts the mark of the key there afterwards. Outside brackets, columns open and end
blocks.
-/

namespace StyleBundle.Yaml

/-- A place at which a key may have started. -/
structure KeyStart where
  /-- The depth of brackets there. -/
  depth : Nat
  /-- The number of tokens before. -/
  position : Nat
  /-- Whether only a key may stand there. -/
  required : Bool
  /-- The place. -/
  cursor : Cursor

/-- The tokens up to a place, and what is known there about blocks and keys. -/
structure Layout where
  /-- The place. -/
  cursor : Cursor
  /-- The tokens before it. -/
  tokens : List Token
  /-- The depth of brackets. -/
  depth : Nat
  /-- The column of the innermost block, or one less than zero. -/
  indent : Int
  /-- The columns of the blocks around it. -/
  outer : List Int
  /-- Whether a key may start here. -/
  allowsKey : Bool
  /-- The places at which a key may have started. -/
  starts : List KeyStart

namespace Layout

/-- The layout at the start of a text. -/
def start (text : List Char) : Layout where
  cursor := .start text
  tokens := []
  depth := 0
  indent := -1
  outer := []
  allowsKey := true
  starts := []

/-- Whether the place is inside brackets. -/
def inFlow (l : Layout) : Bool := l.depth ≠ 0

/-- The layout with a token more. -/
def push (token : Token) (l : Layout) : Layout := { l with tokens := l.tokens ++ [token] }

/-- The layout with a token put in before others. -/
def insert (position : Nat) (token : Token) (l : Layout) : Layout :=
  { l with tokens := l.tokens.insertIdx position token }

/-- The layout at another place. -/
def goTo (cursor : Cursor) (l : Layout) : Layout := { l with cursor }

/-- The layout with a mark of one character as the next token. -/
def mark (token : Token) (l : Layout) : Layout := (l.push token).goTo l.cursor.next

/-- The layout where a key may or may not start. -/
def allowing (allowsKey : Bool) (l : Layout) : Layout := { l with allowsKey }

/-- The blocks indented further than a column end. Inside brackets columns do not count. -/
def unwind (column : Int) (l : Layout) : Layout :=
  if l.inFlow then l else go l.outer l
where
  /-- Ends blocks, going from the innermost outwards. -/
  go : List Int → Layout → Layout
    | [], l => l
    | around :: outer, l =>
      if column < l.indent then go outer { l.push .blockEnd with indent := around, outer }
      else l

/-- Opens a block at a column that is further to the right than the innermost one, with its token
at the given position. -/
def openBlock (column position : Nat) (token : Token) (l : Layout) : Layout :=
  if l.indent < column then
    { l.insert position token with indent := column, outer := l.indent :: l.outer }
  else l

/-- Forgets the place at which a key of this depth may have started. -/
def dropStart (l : Layout) : Result Layout :=
  if l.starts.any fun s => s.depth = l.depth && s.required then refuse "could not find expected ':'"
  else .ok { l with starts := l.starts.filter (·.depth ≠ l.depth) }

/-- A key may start here, where keys may start. -/
def saveStart (l : Layout) : Result Layout :=
  if l.allowsKey then do
    let required := !l.inFlow && l.indent = l.cursor.column
    let l ← l.dropStart
    return { l with starts := ⟨l.depth, l.tokens.length, required, l.cursor⟩ :: l.starts }
  else .ok l

/-- The most characters of a key that stands without a mark. -/
def maxKeyLength : Nat := 1024

/-- Forgets the places too far back for a key: those on other lines, and distant ones. -/
def dropStale (l : Layout) : Result Layout :=
  let isStale (s : KeyStart) : Bool :=
    s.cursor.line ≠ l.cursor.line || maxKeyLength < l.cursor.index - s.cursor.index
  if l.starts.any fun s => isStale s && s.required then refuse "could not find expected ':'"
  else .ok { l with starts := l.starts.filter (!isStale ·) }

/-- Goes to the next token, past spaces, comments and line breaks. -/
def skipSpace (l : Layout) : Layout := go (l.cursor.rest.length + 1) l
where
  /-- Goes on to the next token, line by line. -/
  go : (fuel : Nat) → Layout → Layout
    | 0, l => l
    | fuel + 1, l =>
      let c := l.cursor.skipSpaces.skipComment
      match c.lineBreak? with
      | some (_, c) => go fuel { l with cursor := c, allowsKey := l.allowsKey || !l.inFlow }
      | none => l.goTo c

end Layout

end StyleBundle.Yaml
