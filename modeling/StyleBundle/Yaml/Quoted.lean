import StyleBundle.Json.Reader
import StyleBundle.Yaml.Cursor

/-!
# Quoted scalars

Between single quotes only the quote itself is written twice; between double quotes a backslash
opens an escape. In both, line breaks fold with the spaces around them.
-/

namespace StyleBundle.Yaml.Quoted

/-- The line breaks here and the blanks around them. A document mark may not stand among them. -/
def furtherBreaks : (fuel : Nat) → Cursor → Result (List Char × Cursor)
  | 0, c => .ok ([], c)
  | fuel + 1, c =>
    if c.isDocumentMark then refuse "found unexpected document separator"
    else
      let c := c.skip fun ch => ch = ' ' || ch = '\t'
      match c.lineBreak? with
      | none => .ok ([], c)
      | some (b, c) => do
        let (more, c) ← furtherBreaks fuel c
        return (b :: more, c)

/-- The characters that single letters escape. -/
def escapes : List (Char × Nat) :=
  [('0', 0x00), ('a', 0x07), ('b', 0x08), ('t', 0x09), ('\t', 0x09), ('n', 0x0A), ('v', 0x0B),
    ('f', 0x0C), ('r', 0x0D), ('e', 0x1B), (' ', 0x20), ('"', 0x22), ('\\', 0x5C), ('/', 0x2F),
    ('N', 0x85), ('_', 0xA0), ('L', 0x2028), ('P', 0x2029)]

/-- How many hexadecimal digits follow a letter. -/
def escapeWidth? (c : Char) : Option Nat :=
  if c = 'x' then some 2 else if c = 'u' then some 4 else if c = 'U' then some 8 else none

/-- The number that hexadecimal digits write. -/
def hexNumber? (digits : List Char) : Option Nat :=
  digits.foldlM (fun n c => (Json.Reader.hexValue? c).map (n * 16 + ·)) 0

/-- The character at the number that so many hexadecimal digits write. -/
def numbered (width : Nat) (c : Cursor) : Result (List Char × Cursor) :=
  let digits := c.rest.take width
  match hexNumber? digits with
  | none => refuse "expected escape sequence of hexdecimal numbers"
  | some n =>
    if digits.length < width then refuse "expected escape sequence of hexdecimal numbers"
    else if 0x10FFFF < n then .error (.value "chr() arg not in range(0x110000)")
    else .ok ([Char.ofNat n], c.advance width)

/-- What a backslash and the characters from here on write. -/
def escaped (c : Cursor) : Result (List Char × Cursor) :=
  match c.peek with
  | none => refuse "found unknown escape character"
  | some ch =>
    match escapes.lookup ch, escapeWidth? ch with
    | some n, _ => .ok ([Char.ofNat n], c.next)
    | none, some width => numbered width c.next
    | none, none =>
      match c.lineBreak? with
      | none => refuse "found unknown escape character"
      | some (_, c) => furtherBreaks (c.rest.length + 1) c

/-- Reads up to the closing quote. -/
def readOn (quote : Char) : (fuel : Nat) → Cursor → Result (List Char × Cursor)
  | 0, _ => refuse "found unexpected end of stream"
  | fuel + 1, c =>
    match c.peek with
    | none => refuse "found unexpected end of stream"
    | some ch =>
      if ch = quote then
        if quote = '\'' ∧ c.peekAt 1 = some '\'' then do
          let (more, c) ← readOn quote fuel (c.advance 2)
          return ('\'' :: more, c)
        else .ok ([], c.next)
      else if ch = '\\' ∧ quote = '"' then do
        let (text, c) ← escaped c.next
        let (more, c) ← readOn quote fuel c
        return (text ++ more, c)
      else if isSeparator ch then do
        let blanks := c.span fun ch => ch = ' ' || ch = '\t'
        let c := c.advance blanks.length
        let (text, c) ←
          match c.lineBreak? with
          | none =>
            if c.peek.isNone then refuse "found unexpected end of stream" else .ok (blanks, c)
          | some (b, c) => do
            let (breaks, c) ← furtherBreaks (c.rest.length + 1) c
            let first := if b ≠ '\n' then [b] else if breaks.isEmpty then [' '] else []
            pure (first ++ breaks, c)
        let (more, c) ← readOn quote fuel c
        return (text ++ more, c)
      else do
        let (more, c) ← readOn quote fuel c.next
        return (ch :: more, c)

/-- Reads the scalar whose opening quote stands here. -/
def read (quote : Char) (c : Cursor) : Result (List Char × Cursor) :=
  readOn quote (c.rest.length + 1) c.next

end StyleBundle.Yaml.Quoted
