/-!
# Line breaks

A text file may end its lines with a line feed, a carriage return or both. Reading maps all
three to one line feed; flattening a stylesheet drops them altogether.
-/

namespace StyleBundle.Text

/-- Every line break, whether one character or two, as a single line feed. -/
def unifyLineBreaks : List Char → List Char
  | [] => []
  | '\r' :: '\n' :: rest => '\n' :: unifyLineBreaks rest
  | '\r' :: rest => '\n' :: unifyLineBreaks rest
  | c :: rest => c :: unifyLineBreaks rest

/-- A text without carriage returns is left as it is. -/
theorem unifyLineBreaks_eq_self {s : List Char} (h : '\r' ∉ s) : unifyLineBreaks s = s := by
  fun_induction unifyLineBreaks s with
  | case1 => rfl
  | case2 rest ih => simp at h
  | case3 rest _ ih => simp at h
  | case4 c rest _ _ ih =>
    rw [ih]
    exact fun hr => h (List.mem_cons_of_mem c hr)

/-- The text without its line breaks. -/
def dropLineBreaks (s : List Char) : List Char := s.filter fun c => c != '\n' && c != '\r'

end StyleBundle.Text
