import StyleBundle.Text.Printable

/-!
# Quoted text

Messages show a path or a value between quotes. Single quotes are used, unless the text holds a
single quote and no double quote. A backslash escapes the quote, itself and the common controls;
every other unprintable character is written by its number.
-/

namespace StyleBundle.Text.Quoted

/-- A number in lower-case hexadecimal digits, filled up with zeros to a width. -/
def hex (width n : Nat) : List Char :=
  let digits := Nat.toDigits 16 n
  List.replicate (width - digits.length) '0' ++ digits

/-- How one character stands inside quotes of the given kind. -/
def encodeChar (quote c : Char) : List Char :=
  if c = quote ∨ c = '\\' then ['\\', c]
  else if c = '\t' then ['\\', 't']
  else if c = '\n' then ['\\', 'n']
  else if c = '\r' then ['\\', 'r']
  else if isPrintable c then [c]
  else if c.toNat < 0x100 then '\\' :: 'x' :: hex 2 c.toNat
  else if c.toNat < 0x10000 then '\\' :: 'u' :: hex 4 c.toNat
  else '\\' :: 'U' :: hex 8 c.toNat

/-- The quote that goes around a text. -/
def quoteFor (s : List Char) : Char :=
  if '\'' ∈ s ∧ '"' ∉ s then '"' else '\''

/-- The text between quotes, with everything escaped that needs it. -/
def encode (s : List Char) : List Char :=
  let quote := quoteFor s
  quote :: s.flatMap (encodeChar quote) ++ [quote]

end StyleBundle.Text.Quoted

namespace StyleBundle.Text

/-- A text as messages show it. -/
def quoted (s : String) : String := String.ofList (Quoted.encode s.toList)

end StyleBundle.Text
