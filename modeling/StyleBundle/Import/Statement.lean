import StyleBundle.Text.Blank
import StyleBundle.Text.Search

/-!
# Import statements

An import statement is the word `@import`, blanks, and a target, then any spaces and tabs and at
most one semicolon. The target is quoted if a quote opens it, something stands inside, and the
same quote closes it; otherwise it runs to the next blank or semicolon, even if a quote opens it.

Statements are found from left to right, and the search for the next one starts where the last
one ends. Nothing else of the language is looked at, comments included.
-/

namespace StyleBundle.Import

/-- An import statement as it stands in a source. -/
structure Statement where
  /-- The whole statement, with its semicolon if it has one. -/
  text : String
  /-- The target without its quotes. -/
  target : String
  deriving DecidableEq, Repr

/-- The word that opens a statement. -/
def keyword : List Char := "@import".toList

/-- The target between two quotes of the same kind at the front, and what follows. -/
def quotedTarget? : List Char → Option (List Char × List Char)
  | [] => none
  | quote :: rest =>
    if quote = '\'' ∨ quote = '"' then
      let target := rest.takeWhile (· ≠ quote)
      match rest.dropWhile (· ≠ quote) with
      | [] => none
      | _ :: after => if target.isEmpty then none else some (target, after)
    else none

/-- Whether a character may stand in a target without quotes. -/
def isBare (c : Char) : Bool := !Text.isBlank c && c != ';'

/-- The target without quotes at the front, and what follows. -/
def bareTarget? (s : List Char) : Option (List Char × List Char) :=
  let target := s.takeWhile isBare
  if target.isEmpty then none else some (target, s.dropWhile isBare)

/-- The target at the front, quoted if possible, and what follows. -/
def target? (s : List Char) : Option (List Char × List Char) :=
  match quotedTarget? s with
  | some found => some found
  | none => bareTarget? s

/-- What follows the spaces, tabs and the semicolon that belong to a statement. -/
def skipEnd (s : List Char) : List Char :=
  match s.dropWhile fun c => c = ' ' || c = '\t' with
  | ';' :: rest => rest
  | rest => rest

/-- The target of the statement at the front, and what follows the statement. -/
def parse? (s : List Char) : Option (List Char × List Char) :=
  match Text.dropFront? keyword s with
  | none => none
  | some behind =>
    if (behind.takeWhile Text.isBlank).isEmpty then none
    else
      (target? (behind.dropWhile Text.isBlank)).map fun (target, after) => (target, skipEnd after)

theorem length_dropWhile_le (p : Char → Bool) (s : List Char) :
    (s.dropWhile p).length ≤ s.length := (List.dropWhile_suffix p).length_le

theorem length_le_of_target? {s target after : List Char}
    (h : target? s = some (target, after)) : after.length ≤ s.length := by
  unfold target? at h
  split at h
  next found hq =>
    cases s with
    | nil => simp [quotedTarget?] at hq
    | cons quote rest =>
      have hle := length_dropWhile_le (· ≠ quote) rest
      grind [quotedTarget?]
  next =>
    have hle := length_dropWhile_le isBare s
    grind [bareTarget?]

theorem length_skipEnd_le (s : List Char) : (skipEnd s).length ≤ s.length := by
  have hle := length_dropWhile_le (fun c => c = ' ' || c = '\t') s
  unfold skipEnd
  split
  next rest h =>
    rw [h] at hle
    exact Nat.le_of_succ_le hle
  next => exact hle

/-- A statement uses up its opening word at least. -/
theorem length_lt_of_parse? {s target after : List Char}
    (h : parse? s = some (target, after)) : after.length < s.length := by
  unfold parse? at h
  split at h
  · simp at h
  next behind hfront =>
    split at h
    · simp at h
    next =>
      obtain ⟨⟨t, a⟩, htarget, heq⟩ := Option.map_eq_some_iff.1 h
      have hafter : skipEnd a = after := by simp_all
      have h1 := length_skipEnd_le a
      have h2 := length_le_of_target? htarget
      have h3 := length_dropWhile_le Text.isBlank behind
      have h4 : s = keyword ++ behind := Text.dropFront?_eq_some_iff.1 hfront
      have h5 : 0 < keyword.length := by decide
      subst hafter
      rw [h4, List.length_append]
      omega

/-- The statements of a text, in order. -/
def scan (s : List Char) : List Statement :=
  match s with
  | [] => []
  | c :: rest =>
    match _h : parse? (c :: rest) with
    | none => scan rest
    | some (target, after) =>
      ⟨String.ofList ((c :: rest).take ((c :: rest).length - after.length)),
        String.ofList target⟩ :: scan after
termination_by s.length
decreasing_by
  · simp
  · exact length_lt_of_parse? _h

/-- The statements of a source, in order. -/
def statements (source : String) : List Statement := scan source.toList

end StyleBundle.Import
