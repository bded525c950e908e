import StyleBundle.Json.Reader
import StyleBundle.Text.Utf8
import StyleBundle.Yaml.Token

/-!
# Names, tags and directives

The words of a YAML text that are no scalars and no single marks: the names of anchors and
aliases, the tags of nodes, and the directives before a document.
-/

namespace StyleBundle.Yaml.Lexeme

/-- Whether a name may hold a character. -/
def isNameChar (c : Char) : Bool := c.isAlphanum || c = '-' || c = '_'

/-- The name that stands here and the place behind it. A name is never empty. -/
def name (c : Cursor) : Result (String × Cursor) :=
  let chars := c.span isNameChar
  if chars.isEmpty then refuse "expected alphabetic or numeric character"
  else .ok (String.ofList chars, c.advance chars.length)

/-- Whether a character may stand behind the name of an anchor or alias. -/
def endsAnchor : Option Char → Bool
  | none => true
  | some c => isSeparator c || c ∈ ['?', ':', ',', ']', '\x7d', '%', '@', Char.ofNat 0x60]

/-- The name of the anchor or alias whose mark stands here. -/
def anchor (c : Cursor) : Result (String × Cursor) := do
  let (text, c) ← name c.next
  if endsAnchor c.peek then return (text, c)
  else refuse "expected alphabetic or numeric character"

/-! ## Tags -/

/-- The marks that a tag may hold beside letters and digits. -/
def tagMarks : List Char :=
  ['-', ';', '/', '?', ':', '@', '&', '=', '+', '$', ',', '_', '.', '!', '~', '*', '\'', '(', ')',
    '[', ']', '%']

/-- Whether a tag may hold a character. -/
def isTagChar (c : Char) : Bool := c.isAlphanum || c ∈ tagMarks

/-- The bytes that a row of percent escapes writes. -/
def escapedBytes : List Char → Result (List UInt8)
  | '%' :: high :: low :: rest =>
    match Json.Reader.hexValue? high, Json.Reader.hexValue? low with
    | some h, some l => do
      let more ← escapedBytes rest
      return (h * 16 + l).toUInt8 :: more
    | _, _ => refuse "expected URI escape sequence of 2 hexdecimal numbers"
  | '%' :: _ => refuse "expected URI escape sequence of 2 hexdecimal numbers"
  | _ => .ok []

/-- The text of a tag up to the first character that it cannot hold, with its escapes resolved,
and the number of characters that write it. -/
def tagText : (fuel : Nat) → List Char → Result (List Char × Nat)
  | 0, _ => .ok ([], 0)
  | fuel + 1, s =>
    match s with
    | [] => .ok ([], 0)
    | '%' :: _ => do
      let bytes ← escapedBytes s
      match Text.Utf8.decode bytes with
      | .error _ => refuse "found a tag that is no UTF-8"
      | .ok text =>
        let (more, length) ← tagText fuel (s.drop (3 * bytes.length))
        return (text ++ more, 3 * bytes.length + length)
    | ch :: rest =>
      if isTagChar ch then do
        let (more, length) ← tagText fuel rest
        return (ch :: more, length + 1)
      else .ok ([], 0)

/-- The text of a tag that stands here and the place behind it. It is never empty. -/
def tagName (c : Cursor) : Result (String × Cursor) := do
  let (text, length) ← tagText (c.rest.length + 1) c.rest
  if length = 0 then refuse "expected URI"
  else return (String.ofList text, c.advance length)

/-- The handle that stands here: one exclamation mark, or two with a name between them. -/
def tagHandle (c : Cursor) : Result (String × Cursor) :=
  if c.peek ≠ some '!' then refuse "expected '!'"
  else if c.peekAt 1 = some ' ' then .ok ("!", c.next)
  else
    let chars := c.next.span isNameChar
    if c.peekAt (chars.length + 1) = some '!' then
      .ok (String.ofList ('!' :: chars ++ ['!']), c.advance (chars.length + 2))
    else refuse "expected '!'"

/-- The tag that starts here: between angle brackets, a lone mark, or a handle and a name. -/
def tag (c : Cursor) : Result (Token × Cursor) := do
  let (token, c) ←
    if c.peekAt 1 = some '<' then do
      let (text, c) ← tagName (c.advance 2)
      if c.peek = some '>' then pure (Token.tag none text, c.next) else refuse "expected '>'"
    else if endsWord (c.peekAt 1) then pure (Token.tag none "!", c.next)
    else do
      let word := c.next.span fun ch => ch ≠ ' ' && !isBreak ch
      if '!' ∈ word then
        let (handle, c) ← tagHandle c
        let (text, c) ← tagName c
        pure (Token.tag (some handle) text, c)
      else
        let (text, c) ← tagName c.next
        pure (Token.tag (some "!") text, c)
  if endsField c.peek then return (token, c) else refuse "expected ' '"

/-! ## Directives -/

/-- The number that stands here. -/
def number (c : Cursor) : Result (Nat × Cursor) :=
  let digits := c.span Char.isDigit
  if digits.isEmpty then refuse "expected a digit"
  else .ok (digits.foldl (fun n d => n * 10 + (d.toNat - 48)) 0, c.advance digits.length)

/-- The version that stands here. -/
def version (c : Cursor) : Result (Directive × Cursor) := do
  let (major, c) ← number c.skipSpaces
  if c.peek ≠ some '.' then refuse "expected a digit or '.'"
  else
    let (minor, c) ← number c.next
    if endsField c.peek then return (.version major minor, c) else refuse "expected a digit or ' '"

/-- The tag handle that stands here and what it stands for. -/
def handle (c : Cursor) : Result (Directive × Cursor) := do
  let (name, c) ← tagHandle c.skipSpaces
  if c.peek ≠ some ' ' then refuse "expected ' '"
  else
    let (expansion, c) ← tagName c.skipSpaces
    if endsField c.peek then return (.handle name expansion, c) else refuse "expected ' '"

/-- The directive whose mark stands here, with its line. -/
def directive (c : Cursor) : Result (Directive × Cursor) := do
  let (word, c) ← name c.next
  if !endsField c.peek then refuse "expected alphabetic or numeric character"
  else
    let (value, c) ←
      if word = "YAML" then version c
      else if word = "TAG" then handle c
      else pure (Directive.other, c.skip (!isBreak ·))
    let c ← c.ignoredLine
    return (value, c)

end StyleBundle.Yaml.Lexeme
