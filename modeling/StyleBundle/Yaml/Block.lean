import StyleBundle.Yaml.Cursor

/-!
# Block scalars

A block scalar is the lines indented further than what holds it. Literal ones keep their line
breaks and folded ones fold them between lines that do not start with a blank. What stands at the
end is kept, clipped to one break, or stripped.
-/

namespace StyleBundle.Yaml.Block

/-- What happens to the line breaks at the end. -/
inductive Chomping
  /-- One is kept. -/
  | clip
  /-- All are kept. -/
  | keep
  /-- None is kept. -/
  | strip
  deriving DecidableEq, Repr

/-- What stands behind the mark of a block scalar. -/
structure Header where
  /-- What happens to the line breaks at the end. -/
  chomping : Chomping
  /-- How much further its lines are indented, if that is said. -/
  increment : Option Nat

/-- What a sign says about the end. -/
def chomping? : Option Char → Option Chomping
  | some '+' => some .keep
  | some '-' => some .strip
  | _ => none

/-- The digit at a place. -/
def digit? (c : Cursor) : Option Nat :=
  match c.peek with
  | some ch => if ch.isDigit then some (ch.toNat - 48) else none
  | none => none

/-- Reads the signs behind the mark, in either order. -/
def header (c : Cursor) : Result (Header × Cursor) := do
  let (header, c) ←
    match chomping? c.peek with
    | some chomping =>
      let c := c.next
      match digit? c with
      | some n => pure (⟨chomping, some n⟩, c.next)
      | none => pure (⟨chomping, none⟩, c)
    | none =>
      match digit? c with
      | none => pure (⟨.clip, none⟩, c)
      | some n =>
        let c := c.next
        match chomping? c.peek with
        | some chomping => pure (⟨chomping, some n⟩, c.next)
        | none => pure ((⟨.clip, some n⟩ : Header), c)
  if header.increment = some 0 then
    refuse "expected indentation indicator in the range 1-9, but found 0"
  else if endsField c.peek then return (header, c)
  else refuse "expected chomping or indentation indicators"

/-- The line breaks before the first line, and the largest column reached among them. -/
def leadingBreaks : (fuel : Nat) → (widest : Nat) → Cursor → List Char × Nat × Cursor
  | 0, widest, c => ([], widest, c)
  | fuel + 1, widest, c =>
    let c := c.skipSpaces
    let widest := max widest c.column
    match c.lineBreak? with
    | none => ([], widest, c)
    | some (b, c) =>
      let (more, widest, c) := leadingBreaks fuel widest c
      (b :: more, widest, c)

/-- The line breaks between two lines, with the indentation skipped. -/
def innerBreaks (indent : Nat) : (fuel : Nat) → Cursor → List Char × Cursor
  | 0, c => ([], c)
  | fuel + 1, c =>
    let c := c.skipIndent indent
    match c.lineBreak? with
    | none => ([], c)
    | some (b, c) =>
      let (more, c) := innerBreaks indent fuel c
      (b :: more, c)

/-- Reads the lines from here on, with the breaks that stand before the next one. -/
def lines (folded : Bool) (chomping : Chomping) (indent : Nat) :
    (fuel : Nat) → (breaks : List Char) → Cursor → List Char × Cursor
  | 0, _, c => ([], c)
  | fuel + 1, breaks, c =>
    let startsBlank (c : Cursor) : Bool := c.peek = some ' ' || c.peek = some '\t'
    let line := c.span (!isBreak ·)
    let indented := startsBlank c
    let c := c.advance line.length
    let (ending, c) :=
      match c.lineBreak? with
      | some (b, c) => ([b], c)
      | none => ([], c)
    let (next, c) := innerBreaks indent (c.rest.length + 1) c
    if c.column = indent ∧ c.peek.isSome then
      let fold := folded && ending = ['\n'] && !indented && !startsBlank c
      let joint := if fold then (if next.isEmpty then [' '] else []) else ending
      let (more, c) := lines folded chomping indent fuel next c
      (breaks ++ line ++ joint ++ more, c)
    else
      let tail :=
        match chomping with
        | .strip => []
        | .clip => ending
        | .keep => ending ++ next
      (breaks ++ line ++ tail, c)

/-- Reads the scalar whose mark stands here, inside a block indented to `outer`. -/
def read (folded : Bool) (outer : Int) (c : Cursor) : Result (List Char × Cursor) := do
  let (header, c) ← header c.next
  let c ← c.ignoredLine
  let least := (max 1 (outer + 1)).toNat
  let (breaks, indent, c) :=
    match header.increment with
    | none =>
      let (breaks, widest, c) := leadingBreaks (c.rest.length + 1) 0 c
      (breaks, max least widest, c)
    | some n =>
      let indent := least + n - 1
      let (breaks, c) := innerBreaks indent (c.rest.length + 1) c
      (breaks, indent, c)
  if c.column = indent ∧ c.peek.isSome then
    return lines folded header.chomping indent (c.rest.length + 1) breaks c
  else
    return (if header.chomping = .keep then breaks else [], c)

end StyleBundle.Yaml.Block
