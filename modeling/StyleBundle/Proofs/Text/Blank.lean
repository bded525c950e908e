import Mathlib.Data.List.Induction
import Mathlib.Data.List.TakeWhile
import StyleBundle.Text.Blank
import StyleBundle.Text.LineBreak

/-!
# Texts up to blanks

Trimming a text and dropping its line breaks removes blanks only, so that the text without any
blanks stays the same. Trimming takes nothing that stands before a character that is no blank.
-/

namespace StyleBundle.Text

/-- The text without its blanks. -/
def dropBlanks (s : List Char) : List Char := s.filter fun c => !isBlank c

@[simp] theorem dropBlanks_nil : dropBlanks [] = [] := rfl

theorem dropBlanks_append (s t : List Char) :
    dropBlanks (s ++ t) = dropBlanks s ++ dropBlanks t := List.filter_append ..

/-- A blank in front does not count. -/
theorem dropBlanks_cons_of_isBlank {c : Char} (h : isBlank c = true) (s : List Char) :
    dropBlanks (c :: s) = dropBlanks s := by simp [dropBlanks, h]

/-- A blank at the end does not count. -/
theorem dropBlanks_concat_of_isBlank {c : Char} (h : isBlank c = true) (s : List Char) :
    dropBlanks (s ++ [c]) = dropBlanks s := by simp [dropBlanks, h]

theorem dropLineBreaks_append (s t : List Char) :
    dropLineBreaks (s ++ t) = dropLineBreaks s ++ dropLineBreaks t := List.filter_append ..

theorem dropLineBreaks_cons (c : Char) (s : List Char) : dropLineBreaks (c :: s) =
    if c = '\n' ∨ c = '\r' then dropLineBreaks s else c :: dropLineBreaks s := by
  by_cases hfeed : c = '\n' <;> by_cases hreturn : c = '\r' <;> simp [dropLineBreaks, hfeed, hreturn]

/-- Line breaks are blanks. -/
theorem dropBlanks_dropLineBreaks (s : List Char) :
    dropBlanks (dropLineBreaks s) = dropBlanks s := by
  rw [dropBlanks, dropLineBreaks, List.filter_filter, dropBlanks]
  congr 1
  funext c
  by_cases hline : c = '\n' ∨ c = '\r'
  · rcases hline with rfl | rfl <;> rfl
  · simp only [not_or] at hline
    simp [hline.1, hline.2]

/-- Trimming takes a blank off the front. -/
theorem trimStart_cons (c : Char) (s : List Char) :
    trimStart (c :: s) = if isBlank c then trimStart s else c :: s := by
  simp [trimStart, List.dropWhile_cons]

/-- Trimming takes a blank off the end. -/
theorem trimEnd_concat (s : List Char) (c : Char) :
    trimEnd (s ++ [c]) = if isBlank c then trimEnd s else s ++ [c] := by
  by_cases h : isBlank c = true <;> simp [trimEnd, h]

/-! ## Line breaks -/

/-- Whether a character is part of a line break. -/
def isLineBreak (c : Char) : Bool := c == '\n' || c == '\r'

theorem isBlank_of_isLineBreak {c : Char} (h : isLineBreak c = true) : isBlank c = true := by
  simp only [isLineBreak, Bool.or_eq_true, beq_iff_eq] at h
  rcases h with rfl | rfl <;> rfl

theorem mem_dropLineBreaks {s : List Char} {c : Char} :
    c ∈ dropLineBreaks s ↔ c ∈ s ∧ isLineBreak c = false := by
  simp [dropLineBreaks, isLineBreak]

/-- A text on one line keeps all of it. -/
theorem dropLineBreaks_eq_self {s : List Char} (h : ∀ c ∈ s, isLineBreak c = false) :
    dropLineBreaks s = s := by
  rw [dropLineBreaks, List.filter_eq_self]
  exact fun c hc => by simpa [isLineBreak] using h c hc

/-- Without line breaks there are none to drop. -/
theorem dropLineBreaks_dropLineBreaks (s : List Char) :
    dropLineBreaks (dropLineBreaks s) = dropLineBreaks s :=
  dropLineBreaks_eq_self fun _ hc => (mem_dropLineBreaks.1 hc).2

/-! ## What trimming leaves -/

theorem mem_of_mem_trim {s : List Char} {c : Char} (h : c ∈ trim s) : c ∈ s := by
  rw [trim, trimEnd, List.mem_reverse] at h
  have hstart := (List.dropWhile_suffix _).subset h
  exact (List.dropWhile_suffix _).subset (List.mem_reverse.1 hstart)

/-- Trimming the end takes blanks only. -/
theorem mem_trimEnd_of_mem {s : List Char} {c : Char} (hc : c ∈ s) (h : isBlank c = false) :
    c ∈ trimEnd s := by
  have hsplit := List.takeWhile_append_dropWhile (p := isBlank) (l := s.reverse)
  rw [trimEnd, List.mem_reverse]
  rw [← List.mem_reverse, ← hsplit] at hc
  refine (List.mem_append.1 hc).resolve_left fun htaken => ?_
  simp [List.mem_takeWhile_imp htaken] at h

/-- Trimming the end goes no further than a character that is no blank. -/
theorem trimEnd_append_of_mem {tail : List Char} (h : ∃ c ∈ tail, isBlank c = false)
    (s : List Char) : trimEnd (s ++ tail) = s ++ trimEnd tail := by
  obtain ⟨c, hc, hblank⟩ := h
  rw [trimEnd, trimEnd, List.reverse_append, List.dropWhile_append, if_neg, List.reverse_append,
    List.reverse_reverse]
  rw [List.isEmpty_iff, List.dropWhile_eq_nil_iff]
  intro hall
  simp [hall c (List.mem_reverse.2 hc)] at hblank

/-- Blanks behind a character that is none are trimmed. -/
theorem trimEnd_concat_append {tail : List Char} (h : ∀ c ∈ tail, isBlank c = true) {c : Char}
    (hc : isBlank c = false) (s : List Char) : trimEnd (s ++ [c] ++ tail) = s ++ [c] := by
  induction tail using List.reverseRecOn with
  | nil => rw [List.append_nil, trimEnd_concat, if_neg (by simp [hc])]
  | append_singleton tail d ih =>
    rw [← List.append_assoc, trimEnd_concat, if_pos (h d (by simp)),
      ih fun e he => h e (List.mem_append_left _ he)]

/-- A text that trimming leaves alone does not start with a blank. -/
theorem isBlank_of_trim_eq_self {s : List Char} (h : trim s = s) :
    ∀ c ∈ s.head?, isBlank c = false := by
  intro c hc
  obtain ⟨t, rfl⟩ := List.head?_eq_some_iff.1 hc
  by_contra hblank
  have hend : (trim (c :: t)).length ≤ (trimStart (c :: t)).length := by
    have hdrop := (List.dropWhile_suffix isBlank (l := (trimStart (c :: t)).reverse)).length_le
    rwa [List.length_reverse, ← List.length_reverse] at hdrop
  have hstart : (trimStart (c :: t)).length ≤ t.length := by
    rw [trimStart_cons, if_pos (by simpa using hblank)]
    exact (List.dropWhile_suffix _).length_le
  rw [h, List.length_cons] at hend
  omega

end StyleBundle.Text
