import StyleBundle.Compile.Report
import StyleBundle.Proofs.Text.Pattern

/-!
# Places in messages

An engine says where a stylesheet is wrong with the words `on line L:C of F`. The reader takes the
first of these places in a message: it finds one exactly where the text holds one, and nothing but
the first.
-/

namespace StyleBundle.Diagnosis

/-! ## A place at the front -/

/-- The words around a place. -/
def Locator.text (found : Locator) : List Char :=
  "on line ".toList ++ (found.line ++ (":".toList ++ (found.column ++
    (" of ".toList ++ found.file))))

/-- The file comes last. -/
theorem text_append (line column file rest : List Char) :
    Locator.text ⟨line, column, file⟩ ++ rest = "on line ".toList ++ (line ++ (":".toList ++
      (column ++ (" of ".toList ++ (file ++ rest))))) := by
  have hassoc (a b c : List Char) : a ++ (line ++ (b ++ (column ++ (c ++ file)))) ++ rest =
      a ++ (line ++ (b ++ (column ++ (c ++ (file ++ rest))))) := by simp only [List.append_assoc]
  exact hassoc _ _ _

/-- A row of digits, of which there is one at least. -/
def IsNumeral (digits : List Char) : Prop := digits ≠ [] ∧ ∀ c ∈ digits, Text.isDigit c = true

/-- A text starts with a place. The file goes up to the next blank. -/
structure Locator.Opens (found : Locator) (s : List Char) : Prop where
  /-- The line is a number. -/
  line : IsNumeral found.line
  /-- The column is a number. -/
  column : IsNumeral found.column
  /-- The file has a name. -/
  file_ne : found.file ≠ []
  /-- The name is as long as it can be. -/
  run : ∃ rest, s = found.text ++ rest ∧ Text.IsRun (!Text.isBlank ·) found.file rest

/-- Digits are read up to what is none. -/
theorem digits?_eq_some_iff {s digits rest : List Char} :
    digits? s = some (digits, rest) ↔
      IsNumeral digits ∧ s = digits ++ rest ∧ Text.IsRun Text.isDigit digits rest := by
  simp only [digits?]
  constructor
  · intro h
    split at h
    · cases h
    next hne =>
      obtain ⟨rfl, rfl⟩ : s.takeWhile Text.isDigit = digits ∧ s.dropWhile Text.isDigit = rest := by
        simpa using h
      have hrun := Text.isRun_takeWhile Text.isDigit s
      exact ⟨⟨by simpa using hne, hrun.1⟩, List.takeWhile_append_dropWhile.symm, hrun⟩
  · rintro ⟨⟨hne, -⟩, rfl, hrun⟩
    rw [hrun.takeWhile_append, hrun.dropWhile_append, if_neg (by simpa using hne)]

/-- Digits end before a character that is none. -/
theorem isRun_digits {digits rest : List Char} (h : IsNumeral digits) {c : Char}
    (hc : Text.isDigit c = false) : Text.IsRun Text.isDigit digits (c :: rest) :=
  ⟨h.2, by simpa using hc⟩

/-- A place is read at the front of exactly the texts that start with it. -/
theorem locator?_eq_some_iff {s : List Char} {found : Locator} :
    locator? s = some found ↔ found.Opens s := by
  unfold locator?
  simp only [Option.bind_eq_bind, Option.bind_eq_some_iff, Text.dropFront?_eq_some_iff, Prod.exists,
    digits?_eq_some_iff]
  constructor
  · rintro ⟨s₁, h₁, line, s₂, ⟨hline, h₂, -⟩, s₃, h₃, column, s₄, ⟨hcolumn, h₄, -⟩, rest, h₅, h⟩
    split at h
    · cases h
    next hne =>
      obtain rfl := Option.some.inj h
      have hfile := List.takeWhile_append_dropWhile (p := (!Text.isBlank ·)) (l := rest)
      have hrun := Text.isRun_takeWhile (!Text.isBlank ·) rest
      refine ⟨hline, hcolumn, by simpa using hne, rest.dropWhile (!Text.isBlank ·), ?_, hrun⟩
      rw [text_append, hfile, h₁, h₂, h₃, h₄, h₅]
  · rintro ⟨hline, hcolumn, hne, rest, heq, hrun⟩
    rw [text_append] at heq
    refine ⟨_, heq, found.line, _, ⟨hline, rfl, ?_⟩, _, rfl, found.column, _, ⟨hcolumn, rfl, ?_⟩,
      found.file ++ rest, rfl, ?_⟩
    · exact isRun_digits hline (by decide)
    · exact isRun_digits hcolumn (by decide)
    · rw [hrun.takeWhile_append, if_neg (by simpa using hne)]

/-! ## The first place -/

/-- A place stands somewhere in a text. -/
def HasPlace (s : List Char) : Prop :=
  ∃ before rest, ∃ found : Locator, s = before ++ rest ∧ found.Opens rest

/-- The place that stands in a text before all others. -/
def Locator.IsFirst (found : Locator) (s : List Char) : Prop :=
  ∃ before rest, s = before ++ rest ∧ found.Opens rest ∧
    ∀ before' rest', ∀ other : Locator, s = before' ++ rest' → other.Opens rest' →
      before.length ≤ before'.length

/-- A text starts with one place at most. -/
theorem Locator.Opens.unique {s : List Char} {found other : Locator} (h : found.Opens s)
    (h' : other.Opens s) : found = other :=
  Option.some.inj ((locator?_eq_some_iff.2 h).symm.trans (locator?_eq_some_iff.2 h'))

theorem Locator.Opens.ne_nil {s : List Char} {found : Locator} (h : found.Opens s) : s ≠ [] := by
  obtain ⟨rest, heq, -⟩ := h.run
  have htext : found.text ≠ [] := List.append_ne_nil_of_left_ne_nil (by simp) _
  rw [heq]
  exact List.append_ne_nil_of_left_ne_nil htext _

/-- No place is found where there is none. -/
theorem findLocator?_eq_none_iff {s : List Char} : findLocator? s = none ↔ ¬ HasPlace s := by
  induction s with
  | nil =>
    refine iff_of_true rfl ?_
    rintro ⟨before, rest, found, heq, hopens⟩
    exact hopens.ne_nil (List.append_eq_nil_iff.1 heq.symm).2
  | cons c s ih =>
    rw [findLocator?]
    split
    next found hfound =>
      refine iff_of_false (by simp) (not_not.2 ⟨[], _, found, rfl, locator?_eq_some_iff.1 hfound⟩)
    next hnone =>
      rw [ih, not_iff_not]
      constructor
      · rintro ⟨before, rest, found, rfl, hopens⟩
        exact ⟨c :: before, rest, found, rfl, hopens⟩
      · rintro ⟨before, rest, found, heq, hopens⟩
        cases before with
        | nil =>
          obtain rfl : c :: s = rest := heq
          rw [locator?_eq_some_iff.2 hopens] at hnone
          cases hnone
        | cons d before => exact ⟨before, rest, found, (List.cons.inj heq).2, hopens⟩

/-- There is one first place at most. -/
theorem Locator.IsFirst.unique {s : List Char} {found other : Locator} (h : found.IsFirst s)
    (h' : other.IsFirst s) : found = other := by
  obtain ⟨before, rest, heq, hopens, hfirst⟩ := h
  obtain ⟨before', rest', heq', hopens', hfirst'⟩ := h'
  have hlength : before.length = before'.length := Nat.le_antisymm
    (hfirst before' rest' other heq' hopens') (hfirst' before rest found heq hopens)
  obtain ⟨-, rfl⟩ := List.append_inj (heq.symm.trans heq') hlength
  exact hopens.unique hopens'

end StyleBundle.Diagnosis
