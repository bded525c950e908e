/-!
# Places in a YAML text

A cursor is what is left of a text, with the line and column at which it starts. YAML knows five
line breaks, and what follows a mark is often told by whether a blank or the end comes next.
-/

namespace StyleBundle.Yaml

/-- Why a text is no YAML, or holds a word that stands for no value. -/
inductive Fault
  /-- The text breaks the syntax or the rules for tags and anchors. -/
  | syntactic (reason : String)
  /-- A well-formed word stands for no number, date or character. -/
  | value (message : String)
  deriving DecidableEq, Repr

/-- The outcome of a step of reading. -/
abbrev Result (α : Type) := Except Fault α

/-- A break of the syntax. -/
def refuse {α : Type} (reason : String) : Result α := .error (.syntactic reason)

/-- Whether a character breaks the line. -/
def isBreak (c : Char) : Bool :=
  c = '\n' || c = '\r' || c = '\u0085' || c = '\u2028' || c = '\u2029'

/-- Whether a character separates words: a space, a tab or a line break. -/
def isSeparator (c : Char) : Bool := c = ' ' || c = '\t' || isBreak c

/-- Whether a separator or the end comes next. -/
def endsWord : Option Char → Bool
  | none => true
  | some c => isSeparator c

/-- Whether a line break or the end comes next. -/
def endsLine : Option Char → Bool
  | none => true
  | some c => isBreak c

/-- Whether a space, a line break or the end comes next. -/
def endsField : Option Char → Bool
  | none => true
  | some c => c = ' ' || isBreak c

/-- A place in a text. -/
structure Cursor where
  /-- What is left of the text. -/
  rest : List Char
  /-- The number of characters before. -/
  index : Nat
  /-- The number of line breaks before. -/
  line : Nat
  /-- The number of characters before on the same line, byte order marks aside. -/
  column : Nat

namespace Cursor

/-- The start of a text. -/
def start (text : List Char) : Cursor := ⟨text, 0, 0, 0⟩

/-- The next character. -/
def peek (c : Cursor) : Option Char := c.rest.head?

/-- The character so many places ahead. -/
def peekAt (c : Cursor) (n : Nat) : Option Char := c.rest[n]?

/-- The place behind the next character. -/
def next (c : Cursor) : Cursor :=
  match c.rest with
  | [] => c
  | ch :: rest =>
    if isBreak ch && !(ch = '\r' && rest.head? = some '\n') then ⟨rest, c.index + 1, c.line + 1, 0⟩
    else if ch = '\ufeff' then ⟨rest, c.index + 1, c.line, c.column⟩
    else ⟨rest, c.index + 1, c.line, c.column + 1⟩

/-- The place so many characters further on. -/
def advance (c : Cursor) : Nat → Cursor
  | 0 => c
  | n + 1 => c.next.advance n

/-- The characters from here on that have a property. -/
def span (c : Cursor) (p : Char → Bool) : List Char := c.rest.takeWhile p

/-- The place behind the characters that have a property. -/
def skip (c : Cursor) (p : Char → Bool) : Cursor := c.advance (c.span p).length

/-- The place behind the spaces. -/
def skipSpaces (c : Cursor) : Cursor := c.skip (· = ' ')

/-- The place behind the spaces, at a column at most. -/
def skipIndent (c : Cursor) (column : Nat) : Cursor :=
  c.advance (min (c.span (· = ' ')).length (column - c.column))

/-- The place at the end of a comment, if one starts here. -/
def skipComment (c : Cursor) : Cursor :=
  if c.peek = some '#' then c.skip (!isBreak ·) else c

/-- The line break that comes next, as the text has it in a scalar, and the place behind. -/
def lineBreak? (c : Cursor) : Option (Char × Cursor) :=
  match c.rest with
  | '\r' :: '\n' :: _ => some ('\n', c.advance 2)
  | ch :: _ =>
    if ch = '\n' ∨ ch = '\r' ∨ ch = '\u0085' then some ('\n', c.next)
    else if ch = '\u2028' ∨ ch = '\u2029' then some (ch, c.next)
    else none
  | [] => none

/-- The place behind the rest of a line that may hold a comment only. -/
def ignoredLine (c : Cursor) : Result Cursor :=
  let c := c.skipSpaces.skipComment
  if endsLine c.peek then .ok ((c.lineBreak?.map Prod.snd).getD c)
  else refuse "expected a comment or a line break"

/-- Whether a document mark of the given character stands here. -/
def isMark (c : Cursor) (mark : Char) : Bool :=
  c.rest.take 3 = [mark, mark, mark] && endsWord (c.peekAt 3)

/-- Whether the start or the end of a document is marked here. -/
def isDocumentMark (c : Cursor) : Bool := c.isMark '-' || c.isMark '.'

end Cursor

end StyleBundle.Yaml
