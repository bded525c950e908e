/-!
# Finding, cutting and replacing text

Textual substitution works on the first occurrence of a piece of text. `cut?` finds it, and the
other operations are read off its answer: what stands before it and what stands behind it.
-/

namespace StyleBundle.Text

/-- What follows `front` in a text that starts with it. -/
def dropFront? : (front s : List Char) → Option (List Char)
  | [], s => some s
  | _ :: _, [] => none
  | p :: ps, c :: rest => if p = c then dropFront? ps rest else none

/-- Dropping the front is the inverse of putting it there. -/
theorem dropFront?_eq_some_iff {front s rest : List Char} :
    dropFront? front s = some rest ↔ s = front ++ rest := by
  induction front generalizing s with
  | nil => simp [dropFront?, eq_comm]
  | cons p ps ih =>
    cases s with
    | nil => simp [dropFront?]
    | cons c cs =>
      by_cases h : p = c
      · simp [dropFront?, h, ih]
      · simp [dropFront?, h, eq_comm]

/-- What stands before and behind the first occurrence of `part`. -/
def cut? (part : List Char) : List Char → Option (List Char × List Char)
  | [] => if part.isEmpty then some ([], []) else none
  | c :: rest =>
    if part.isPrefixOf (c :: rest) then some ([], (c :: rest).drop part.length)
    else (cut? part rest).map fun (before, behind) => (c :: before, behind)

/-- A successful cut takes one occurrence out of the text and nothing else. -/
theorem eq_append_of_cut? {part s before behind : List Char}
    (h : cut? part s = some (before, behind)) : s = before ++ part ++ behind := by
  induction s generalizing before behind with
  | nil =>
    cases part with
    | nil => simp_all [cut?]
    | cons p ps => simp [cut?] at h
  | cons c rest ih =>
    rw [cut?] at h
    split at h
    next hp =>
      obtain ⟨t, ht⟩ := List.isPrefixOf_iff_prefix.1 hp
      have hcut : [] = before ∧ (c :: rest).drop part.length = behind := by simpa using h
      obtain ⟨rfl, rfl⟩ := hcut
      rw [← ht]
      simp
    next =>
      obtain ⟨⟨b, t⟩, hcut, heq⟩ := Option.map_eq_some_iff.1 h
      have hpair : c :: b = before ∧ t = behind := by simpa using heq
      obtain ⟨rfl, rfl⟩ := hpair
      simp [ih hcut]

/-- Whether `part` occurs in the text. -/
def contains (part s : List Char) : Bool := (cut? part s).isSome

/-- The text with the first occurrence of `old`, if there is one, replaced by `new`. An empty
`old` occurs at the very start. -/
def replaceFirst (old new s : List Char) : List Char :=
  match cut? old s with
  | some (before, behind) => before ++ new ++ behind
  | none => s

/-- The pieces of a text between the occurrences of a separator; there is always one. -/
def split (separator : Char) : List Char → List (List Char)
  | [] => [[]]
  | c :: rest =>
    if c = separator then [] :: split separator rest
    else
      match split separator rest with
      | [] => [[c]]
      | piece :: pieces => (c :: piece) :: pieces

theorem split_ne_nil (separator : Char) (s : List Char) : split separator s ≠ [] := by
  cases s with
  | nil => simp [split]
  | cons c rest =>
    rw [split]
    split
    · simp
    · split <;> simp

/-- The pieces joined again with the separator between them. -/
def join (separator : Char) : List (List Char) → List Char
  | [] => []
  | [piece] => piece
  | piece :: pieces => piece ++ separator :: join separator pieces

/-- Joining undoes splitting. -/
theorem join_split (separator : Char) (s : List Char) :
    join separator (split separator s) = s := by
  induction s with
  | nil => rfl
  | cons c rest ih =>
    rw [split]
    split
    next h =>
      cases hs : split separator rest with
      | nil => exact absurd hs (split_ne_nil separator rest)
      | cons piece pieces => simp [join, ← hs, ih, h]
    next =>
      cases hs : split separator rest with
      | nil => exact absurd hs (split_ne_nil separator rest)
      | cons piece pieces =>
        rw [hs] at ih
        cases pieces with
        | nil => simpa [join] using ih
        | cons p ps => simpa [join] using ih

/-- The text behind the last separator, or all of it. -/
def lastPiece (separator : Char) (s : List Char) : List Char :=
  (split separator s).getLast?.getD []

end StyleBundle.Text
