/-!
# White space

The characters that count as white space in stylesheets, diagnostics and compiled text, and the
trimming built on them. The class is wider than `Char.isWhitespace`: it holds the separators of
every script and the four information separators below the blank.
-/

namespace StyleBundle.Text

/-- A character is blank when it is a tab, a line or page break, an information separator,
the next-line control, or one of the space separators of any script. -/
def isBlank (c : Char) : Bool :=
  let n := c.toNat
  (0x09 ≤ n && n ≤ 0x0D) || (0x1C ≤ n && n ≤ 0x20) || n == 0x85 || n == 0xA0 || n == 0x1680 ||
    (0x2000 ≤ n && n ≤ 0x200A) || n == 0x2028 || n == 0x2029 || n == 0x202F || n == 0x205F ||
    n == 0x3000

/-- The text without its leading blanks. -/
def trimStart (s : List Char) : List Char := s.dropWhile isBlank

/-- The text without its trailing blanks. -/
def trimEnd (s : List Char) : List Char := (s.reverse.dropWhile isBlank).reverse

/-- The text without blanks at either end. -/
def trim (s : List Char) : List Char := trimEnd (trimStart s)

@[simp] theorem trimStart_nil : trimStart [] = [] := rfl

@[simp] theorem trimEnd_nil : trimEnd [] = [] := rfl

@[simp] theorem trim_nil : trim [] = [] := rfl

/-- The characters that end a line of a diagnostic: line feed, vertical tab, form feed,
carriage return, three information separators, next line, and the two Unicode separators. -/
def isLineEnd (c : Char) : Bool :=
  let n := c.toNat
  (0x0A ≤ n && n ≤ 0x0D) || (0x1C ≤ n && n ≤ 0x1E) || n == 0x85 || n == 0x2028 || n == 0x2029

/-- The first line of a text, without what ends it. -/
def firstLine (s : List Char) : List Char := s.takeWhile (!isLineEnd ·)

end StyleBundle.Text
