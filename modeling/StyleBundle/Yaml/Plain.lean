import StyleBundle.Yaml.Cursor

/-!
# Plain scalars

A plain scalar has no quotes. It ends before a colon or comment that counts as one, before a mark
of the flow style inside brackets, and where a line is indented too little. Its line breaks fold.
-/

namespace StyleBundle.Yaml.Plain

/-- Whether a character is a mark of the flow style. -/
def isFlowMark (c : Char) : Bool := c ∈ [',', '[', ']', '\x7b', '\x7d']

/-- Whether a colon before this counts as the mark of a value. -/
def endsKey (inFlow : Bool) : Option Char → Bool
  | none => true
  | some c => isSeparator c || (inFlow && isFlowMark c)

/-- The characters of the scalar up to a separator or a mark. -/
def word (inFlow : Bool) : List Char → List Char
  | [] => []
  | c :: rest =>
    if isSeparator c || (c = ':' && endsKey inFlow rest.head?) ||
        (inFlow && (isFlowMark c || c = '?')) then []
    else c :: word inFlow rest

/-- What separates two words of a scalar. -/
structure Gap where
  /-- The separation as it stands in the scalar; empty if the scalar ends here. -/
  text : List Char
  /-- The place behind the gap. -/
  cursor : Cursor
  /-- Whether the gap breaks the line. -/
  broken : Bool

/-- The further line breaks of a gap, with the spaces around them skipped. A document mark at the
start of a line ends the scalar, and then there are no breaks to give. -/
def furtherBreaks : (fuel : Nat) → Cursor → Option (List Char) × Cursor
  | 0, c => (some [], c)
  | fuel + 1, c =>
    if c.isDocumentMark && c.column = 0 then (none, c)
    else
      let c := c.skipSpaces
      match c.lineBreak? with
      | none => (some [], c)
      | some (b, c) =>
        let (more, c) := furtherBreaks fuel c
        (more.map (b :: ·), c)

/-- The gap at a place. One line break folds to a space, and more than one lose the first. -/
def gap (c : Cursor) : Gap :=
  let spaces := c.span (· = ' ')
  let c := c.skipSpaces
  match c.lineBreak? with
  | none => ⟨spaces, c, false⟩
  | some (b, c) =>
    match furtherBreaks (c.rest.length + 1) c with
    | (none, c) => ⟨[], c, true⟩
    | (some more, c) =>
      let first := if b ≠ '\n' then [b] else if more.isEmpty then [' '] else []
      ⟨first ++ more, c, true⟩

/-- A scalar as far as it is read. -/
structure Scalar where
  /-- Its text. -/
  text : List Char
  /-- The place behind it and the gap that follows. -/
  cursor : Cursor
  /-- Whether that gap breaks the line. -/
  broken : Bool

/-- Reads on behind a gap. `indent` is the least column at which the scalar goes on outside of
brackets. -/
def readOn (inFlow : Bool) (indent : Int) : (fuel : Nat) → Scalar → (gap : List Char) → Scalar
  | 0, s, _ => s
  | fuel + 1, s, before =>
    let chunk := word inFlow s.cursor.rest
    if s.cursor.peek = some '#' ∨ chunk.isEmpty then s
    else
      let g := gap (s.cursor.advance chunk.length)
      let s := ⟨s.text ++ before ++ chunk, g.cursor, g.broken⟩
      if g.text.isEmpty ∨ (!inFlow ∧ (g.cursor.column : Int) < indent) then s
      else readOn inFlow indent fuel s g.text

/-- Reads the scalar that starts here. -/
def read (inFlow : Bool) (indent : Int) (c : Cursor) : Scalar :=
  readOn inFlow indent (c.rest.length + 1) ⟨[], c, false⟩ []

end StyleBundle.Yaml.Plain
