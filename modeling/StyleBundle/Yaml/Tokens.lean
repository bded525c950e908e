import StyleBundle.Yaml.Block
import StyleBundle.Yaml.Layout
import StyleBundle.Yaml.Lexeme
import StyleBundle.Yaml.Plain
import StyleBundle.Yaml.Quoted

/-!
# The tokens of a text

Reading goes from token to token. What the next one is can be told from the character at which it
starts and the one behind. A text that breaks the rules still has the tokens before that place.
-/

namespace StyleBundle.Yaml

namespace Layout

/-- Ends all blocks and drops the key that may have started, as at the end of a document. -/
def closeBlocks (l : Layout) : Result Layout := do
  let l ← (l.unwind (-1)).dropStart
  return l.allowing false

/-- Reads a directive. -/
def directive (l : Layout) : Result Layout := do
  let l ← l.closeBlocks
  let (value, c) ← Lexeme.directive l.cursor
  return (l.push (.directive value)).goTo c

/-- Reads the mark at the start or end of a document. -/
def documentMark (token : Token) (l : Layout) : Result Layout := do
  let l ← l.closeBlocks
  return (l.push token).goTo (l.cursor.advance 3)

/-- Reads an opening bracket or brace. -/
def opening (token : Token) (l : Layout) : Result Layout := do
  let l ← l.saveStart
  return { (l.mark token).allowing true with depth := l.depth + 1 }

/-- Reads a closing bracket or brace. -/
def closing (token : Token) (l : Layout) : Result Layout := do
  let l ← l.dropStart
  return { (l.mark token).allowing false with depth := l.depth - 1 }

/-- Reads a comma. -/
def comma (l : Layout) : Result Layout := do
  let l ← l.dropStart
  return (l.mark .comma).allowing true

/-- Reads the hyphen of an entry. -/
def entry (l : Layout) : Result Layout := do
  let l ←
    if l.inFlow then pure l
    else if l.allowsKey then
      pure (l.openBlock l.cursor.column l.tokens.length .blockSequence)
    else refuse "sequence entries are not allowed here"
  let l ← l.dropStart
  return (l.mark .entry).allowing true

/-- Reads the mark of a key. -/
def key (l : Layout) : Result Layout := do
  let l ←
    if l.inFlow then pure l
    else if l.allowsKey then
      pure (l.openBlock l.cursor.column l.tokens.length .blockMapping)
    else refuse "mapping keys are not allowed here"
  let l ← l.dropStart
  return (l.mark .key).allowing !l.inFlow

/-- Reads the colon before a value. What may have been a key before it was one. -/
def value (l : Layout) : Result Layout :=
  match l.starts.find? (·.depth = l.depth) with
  | some s =>
    let l := { l with starts := l.starts.filter (·.depth ≠ l.depth) }
    let l := l.insert s.position .key
    let l := if l.inFlow then l else l.openBlock s.cursor.column s.position .blockMapping
    .ok ((l.mark .value).allowing false)
  | none => do
    let l ←
      if l.inFlow then pure l
      else if l.allowsKey then
        pure (l.openBlock l.cursor.column l.tokens.length .blockMapping)
      else refuse "mapping values are not allowed here"
    return (l.mark .value).allowing !l.inFlow

/-- Reads an alias or an anchor. -/
def named (token : String → Token) (l : Layout) : Result Layout := do
  let l ← l.saveStart
  let (name, c) ← Lexeme.anchor l.cursor
  return ((l.push (token name)).goTo c).allowing false

/-- Reads a tag. -/
def tag (l : Layout) : Result Layout := do
  let l ← l.saveStart
  let (token, c) ← Lexeme.tag l.cursor
  return ((l.push token).goTo c).allowing false

/-- Reads a block scalar. -/
def blockScalar (folded : Bool) (l : Layout) : Result Layout := do
  let l ← l.dropStart
  let (text, c) ← Block.read folded l.indent l.cursor
  return ((l.push (.scalar (String.ofList text) false)).goTo c).allowing true

/-- Reads a scalar between quotes. -/
def quotedScalar (quote : Char) (l : Layout) : Result Layout := do
  let l ← l.saveStart
  let (text, c) ← Quoted.read quote l.cursor
  return ((l.push (.scalar (String.ofList text) false)).goTo c).allowing false

/-- Reads a plain scalar. A key may start behind it if a line break follows. -/
def plainScalar (l : Layout) : Result Layout := do
  let l ← l.saveStart
  let s := Plain.read l.inFlow (l.indent + 1) l.cursor
  return ((l.push (.scalar (String.ofList s.text) true)).goTo s.cursor).allowing s.broken

/-- The characters that are marks, and so start no plain scalar. -/
def marks : List Char :=
  ['-', '?', ':', ',', '[', ']', '\x7b', '\x7d', '#', '&', '*', '!', '|', '>', '\'', '"', '%', '@',
    Char.ofNat 0x60]

/-- Whether a plain scalar starts with a character, followed by another or the end. -/
def startsPlain (inFlow : Bool) (ch : Char) (behind : Option Char) : Bool :=
  (!isSeparator ch && ch ∉ marks) ||
    (!endsWord behind && (ch = '-' || (!inFlow && (ch = '?' || ch = ':'))))

/-- Reads the token that starts with a character. -/
def token (ch : Char) (l : Layout) : Result Layout :=
  let atStart : Bool := l.cursor.column = 0
  let behind := l.cursor.peekAt 1
  if ch = '%' ∧ atStart then l.directive
  else if atStart ∧ l.cursor.isMark '-' then l.documentMark .documentStart
  else if atStart ∧ l.cursor.isMark '.' then l.documentMark .documentEnd
  else if ch = '[' then l.opening .openSequence
  else if ch = '\x7b' then l.opening .openMapping
  else if ch = ']' then l.closing .closeSequence
  else if ch = '\x7d' then l.closing .closeMapping
  else if ch = ',' then l.comma
  else if ch = '-' ∧ endsWord behind then l.entry
  else if ch = '?' ∧ (l.inFlow ∨ endsWord behind) then l.key
  else if ch = ':' ∧ (l.inFlow ∨ endsWord behind) then l.value
  else if ch = '*' then l.named .alias
  else if ch = '&' then l.named .anchor
  else if ch = '!' then l.tag
  else if ch = '|' ∧ !l.inFlow then l.blockScalar false
  else if ch = '>' ∧ !l.inFlow then l.blockScalar true
  else if ch = '\'' ∨ ch = '"' then l.quotedScalar ch
  else if startsPlain l.inFlow ch behind then l.plainScalar
  else refuse "found character that cannot start any token"

/-- The layout behind the next token, or nothing at the end. -/
def step (l : Layout) : Result (Layout × Bool) := do
  let l ← l.skipSpace.dropStale
  let l := l.unwind l.cursor.column
  match l.cursor.peek with
  | none => return (← l.closeBlocks, true)
  | some ch => return (← l.token ch, false)

/-- All tokens from a layout on, and the fault that ends them. -/
def run : (fuel : Nat) → Layout → List Token × Option Fault
  | 0, l => (l.tokens, none)
  | fuel + 1, l =>
    match l.step with
    | .error fault => (l.tokens, some fault)
    | .ok (l, true) => (l.tokens, none)
    | .ok (l, false) => run fuel l

end Layout

/-- Whether a character may stand in a YAML text. -/
def isAllowed (c : Char) : Bool :=
  let n := c.toNat
  n = 0x09 || n = 0x0A || n = 0x0D || (0x20 ≤ n && n ≤ 0x7E) || n = 0x85 ||
    (0xA0 ≤ n && n ≤ 0xD7FF) || (0xE000 ≤ n && n ≤ 0xFFFD) || 0x10000 ≤ n

/-- The tokens of a text, and the fault that ends them if it is not well-formed. -/
def tokens (text : List Char) : List Token × Option Fault :=
  if text.all isAllowed then
    let text := if text.head? = some '\ufeff' then text.drop 1 else text
    (Layout.start text).run (text.length + 2)
  else ([], some (.syntactic "special characters are not allowed"))

end StyleBundle.Yaml
