import Mathlib.Data.List.TakeWhile
import StyleBundle.Table
import StyleBundle.Text.Search

/-!
# Patterns

A pattern takes the front of a text, usually in several ways. They are listed in the order in which
a matcher that backtracks tries them: a choice tries its first side before the second, and a
repetition goes on for as long as it can before it stops earlier. The first way is the match.

Where nothing that follows a repetition can start with one of its characters, stopping earlier
leads nowhere. The longest run is then the only one that counts, and backtracking never adds a way.
-/

namespace StyleBundle.Text

/-! ## Longest runs -/

/-- Characters of a class that make a longest run: what follows starts with none of them. -/
def IsRun (p : Char → Bool) (run rest : List Char) : Prop :=
  (∀ c ∈ run, p c = true) ∧ ∀ c ∈ rest.head?, p c = false

theorem isRun_takeWhile (p : Char → Bool) (s : List Char) :
    IsRun p (s.takeWhile p) (s.dropWhile p) := by
  refine ⟨fun c hc => List.mem_takeWhile_imp hc, fun c hc => ?_⟩
  have hnot := List.head?_dropWhile_not p s
  rw [Option.mem_def.1 hc] at hnot
  simpa using hnot

variable {p : Char → Bool} {run rest : List Char}

theorem IsRun.takeWhile_append (h : IsRun p run rest) : (run ++ rest).takeWhile p = run := by
  rw [List.takeWhile_append_of_pos h.1]
  cases rest with
  | nil => simp
  | cons c more => simp [h.2 c rfl]

theorem IsRun.dropWhile_append (h : IsRun p run rest) : (run ++ rest).dropWhile p = rest := by
  rw [List.dropWhile_append_of_pos h.1]
  cases rest with
  | nil => simp
  | cons c more => simp [h.2 c rfl]

/-! ## Patterns -/

/-- One way in which a pattern takes the front of a text. -/
structure Way where
  /-- What is taken. -/
  taken : List Char
  /-- What the numbered groups take of it. -/
  groups : Table Nat (List Char)
  /-- What follows. -/
  rest : List Char
  deriving DecidableEq

namespace Way

/-- A way and then one through what follows it. -/
def append (way next : Way) : Way :=
  ⟨way.taken ++ next.taken, way.groups ++ next.groups, next.rest⟩

/-- A way whose share of the text is kept under a number. -/
def keep (number : Nat) (way : Way) : Way :=
  { way with groups := way.groups ++ [(number, way.taken)] }

end Way

/-- A pattern for the front of a text. -/
inductive Pattern
  /-- Nothing at all. -/
  | nothing
  /-- One character of a class. -/
  | one (p : Char → Bool)
  /-- Any number of characters of a class, as many as possible first. -/
  | many (p : Char → Bool)
  /-- A pattern and then another. -/
  | seq (first second : Pattern)
  /-- A pattern or else another. -/
  | choice (first second : Pattern)
  /-- A pattern whose share of the text is kept under a number. -/
  | group (number : Nat) (inner : Pattern)

/-- The ways to take characters of a class, the longest first. -/
def runs (p : Char → Bool) : List Char → List Way
  | [] => [⟨[], [], []⟩]
  | c :: rest =>
    if p c then (runs p rest).map (⟨[c], [], rest⟩ : Way).append ++ [⟨[], [], c :: rest⟩]
    else [⟨[], [], c :: rest⟩]

@[simp] theorem runs_nil (p : Char → Bool) : runs p [] = [⟨[], [], []⟩] := rfl

theorem runs_cons (p : Char → Bool) (c : Char) (rest : List Char) : runs p (c :: rest) =
    if p c then (runs p rest).map (⟨[c], [], rest⟩ : Way).append ++ [⟨[], [], c :: rest⟩]
    else [⟨[], [], c :: rest⟩] := rfl

namespace Pattern

/-- The ways in which a pattern takes the front of a text, in the order in which they are tried. -/
def ways : Pattern → List Char → List Way
  | nothing, s => [⟨[], [], s⟩]
  | one _, [] => []
  | one p, c :: rest => if p c then [⟨[c], [], rest⟩] else []
  | many p, s => runs p s
  | seq first second, s => (first.ways s).flatMap fun way => (second.ways way.rest).map way.append
  | choice first second, s => first.ways s ++ second.ways s
  | group number inner, s => (inner.ways s).map (Way.keep number)

section Ways

variable (p : Char → Bool) (c : Char) (rest s : List Char) (first second inner : Pattern)

@[simp] theorem ways_nothing : nothing.ways s = [⟨[], [], s⟩] := rfl

@[simp] theorem ways_one_nil : (one p).ways [] = [] := rfl

@[simp] theorem ways_one_cons :
    (one p).ways (c :: rest) = if p c then [⟨[c], [], rest⟩] else [] := rfl

@[simp] theorem ways_many : (many p).ways s = runs p s := rfl

@[simp] theorem ways_seq : (seq first second).ways s =
    (first.ways s).flatMap fun way => (second.ways way.rest).map way.append := rfl

@[simp] theorem ways_choice : (choice first second).ways s = first.ways s ++ second.ways s := rfl

@[simp] theorem ways_group (number : Nat) :
    (group number inner).ways s = (inner.ways s).map (Way.keep number) := rfl

end Ways

/-- The way that is taken. -/
def match? (pattern : Pattern) (s : List Char) : Option Way := (pattern.ways s).head?

theorem match?_eq_head? (pattern : Pattern) (s : List Char) :
    pattern.match? s = (pattern.ways s).head? := rfl

/-- The matches in a text from left to right. The search for the next one starts where the last one
ends, and a match of nothing is passed over. -/
def findAll (pattern : Pattern) (s : List Char) : List Way :=
  match s with
  | [] => []
  | c :: rest =>
    match pattern.match? (c :: rest) with
    | none => findAll pattern rest
    | some way =>
      if way.rest.length < (c :: rest).length then way :: findAll pattern way.rest
      else findAll pattern rest
termination_by s.length
decreasing_by
  · exact Nat.lt_succ_self _
  · assumption
  · exact Nat.lt_succ_self _

/-- At least one character of a class. -/
def oneOrMore (p : Char → Bool) : Pattern := seq (one p) (many p)

/-- A pattern, if possible. -/
def optional (pattern : Pattern) : Pattern := choice pattern nothing

/-- A row of characters. -/
def word : List Char → Pattern
  | [] => nothing
  | c :: rest => seq (one (· == c)) (word rest)

@[simp] theorem word_cons (c : Char) (rest : List Char) :
    word (c :: rest) = seq (one (· == c)) (word rest) := rfl

variable {p : Char → Bool} {s : List Char}

theorem append_of_mem_runs {way : Way} (h : way ∈ runs p s) : s = way.taken ++ way.rest := by
  induction s generalizing way with
  | nil =>
    obtain rfl := List.mem_singleton.1 h
    rfl
  | cons c rest ih =>
    rw [runs_cons] at h
    split at h
    · rcases List.mem_append.1 h with h | h
      · obtain ⟨next, hnext, rfl⟩ := List.mem_map.1 h
        exact congrArg (c :: ·) (ih hnext)
      · obtain rfl := List.mem_singleton.1 h
        rfl
    · obtain rfl := List.mem_singleton.1 h
      rfl

/-- What a way takes and what follows it make the text. -/
theorem append_of_mem_ways {pattern : Pattern} {way : Way} (h : way ∈ pattern.ways s) :
    s = way.taken ++ way.rest := by
  induction pattern generalizing s way with
  | nothing =>
    obtain rfl := List.mem_singleton.1 h
    rfl
  | one p =>
    cases s with
    | nil => cases h
    | cons c rest =>
      rw [ways_one_cons] at h
      split at h
      · obtain rfl := List.mem_singleton.1 h
        rfl
      · cases h
  | many p => exact append_of_mem_runs h
  | seq first second ihfirst ihsecond =>
    obtain ⟨front, hfront, h⟩ := List.mem_flatMap.1 h
    obtain ⟨next, hnext, rfl⟩ := List.mem_map.1 h
    rw [ihfirst hfront, ihsecond hnext, Way.append, List.append_assoc]
  | choice first second ihfirst ihsecond =>
    rcases List.mem_append.1 h with h | h
    · exact ihfirst h
    · exact ihsecond h
  | group number inner ih =>
    obtain ⟨inner, hinner, rfl⟩ := List.mem_map.1 h
    exact (ih hinner :)

/-- What a match takes and what follows it make the text. -/
theorem append_of_match? {pattern : Pattern} {way : Way} (h : pattern.match? s = some way) :
    s = way.taken ++ way.rest :=
  append_of_mem_ways (List.mem_of_head? h)

/-! ## The way that is taken -/

/-- Where the second pattern takes what follows the match of the first, there is no need to
backtrack. -/
theorem match?_seq {first second : Pattern} {way next : Way} (hway : first.match? s = some way)
    (hnext : second.match? way.rest = some next) :
    (seq first second).match? s = some (way.append next) := by
  obtain ⟨more, hmore⟩ := List.head?_eq_some_iff.1 hway
  obtain ⟨others, hothers⟩ := List.head?_eq_some_iff.1 hnext
  simp [match?_eq_head?, hmore, hothers]

/-- A repetition takes the longest run. -/
theorem match?_many (p : Char → Bool) (s : List Char) :
    (many p).match? s = some ⟨s.takeWhile p, [], s.dropWhile p⟩ := by
  induction s with
  | nil => rfl
  | cons c rest ih =>
    cases hc : p c with
    | false => simp [match?_eq_head?, runs_cons, hc]
    | true =>
      obtain ⟨more, hmore⟩ := List.head?_eq_some_iff.1 ih
      rw [ways_many] at hmore
      simp [match?_eq_head?, runs_cons, hc, hmore, Way.append]

/-- A repetition takes the longest run, if that is not empty. -/
theorem match?_oneOrMore (p : Char → Bool) (s : List Char) : (oneOrMore p).match? s =
    if (s.takeWhile p).isEmpty then none else some ⟨s.takeWhile p, [], s.dropWhile p⟩ := by
  cases s with
  | nil => rfl
  | cons c rest =>
    cases hc : p c with
    | false => simp [match?_eq_head?, oneOrMore, hc]
    | true =>
      have hone : (one p).match? (c :: rest) = some ⟨[c], [], rest⟩ := by simp [match?_eq_head?, hc]
      simpa [oneOrMore, hc, Way.append] using match?_seq hone (match?_many p rest)

/-- The second side of a choice counts where the first has no match. -/
theorem match?_choice (first second : Pattern) (s : List Char) :
    (choice first second).match? s = (first.match? s).or (second.match? s) :=
  List.head?_append

/-- A group takes what its pattern takes. -/
theorem match?_group (number : Nat) (inner : Pattern) (s : List Char) :
    (group number inner).match? s = (inner.match? s).map (Way.keep number) :=
  List.head?_map

/-! ## Patterns that leave no choice -/

/-- A row of characters is taken in one way by a text that starts with it, and in none by others. -/
theorem ways_word (front s : List Char) :
    (word front).ways s = ((dropFront? front s).map fun rest => ⟨front, [], rest⟩).toList := by
  induction front generalizing s with
  | nil => rfl
  | cons c front ih =>
    cases s with
    | nil => rfl
    | cons d rest =>
      by_cases hd : d = c
      · subst hd
        cases hfront : dropFront? front rest <;>
          simp [ih, dropFront?, hfront, Way.append]
      · simp [dropFront?, hd, Ne.symm hd]

/-- Where nothing can follow a shorter run, only the longest one counts. -/
theorem flatMap_ways_many {β : Type} {f : Way → List β}
    (h : ∀ way c rest, way.rest = c :: rest → p c = true → f way = []) (s : List Char) :
    ((many p).ways s).flatMap f = f ⟨s.takeWhile p, [], s.dropWhile p⟩ := by
  induction s generalizing f with
  | nil => simp
  | cons c rest ih =>
    cases hc : p c with
    | false => simp [runs_cons, hc]
    | true =>
      have hrest : ((many p).ways rest).flatMap (fun way => f (Way.append ⟨[c], [], rest⟩ way)) =
          f ⟨c :: rest.takeWhile p, [], rest.dropWhile p⟩ :=
        ih (f := fun way => f (Way.append ⟨[c], [], rest⟩ way))
          fun way d more hway hd => h _ d more hway hd
      have hshort := h ⟨[], [], c :: rest⟩ c rest rfl hc
      simpa [runs_cons, hc, List.flatMap_map, hshort] using hrest

/-- Where nothing can follow a shorter run, only the longest one counts, if it is not empty. -/
theorem flatMap_ways_oneOrMore {β : Type} {f : Way → List β}
    (h : ∀ way c rest, way.rest = c :: rest → p c = true → f way = []) (s : List Char) :
    ((oneOrMore p).ways s).flatMap f =
      if (s.takeWhile p).isEmpty then [] else f ⟨s.takeWhile p, [], s.dropWhile p⟩ := by
  cases s with
  | nil => rfl
  | cons c rest =>
    cases hc : p c with
    | false => simp [oneOrMore, hc]
    | true =>
      have hrest : ((many p).ways rest).flatMap (fun way => f (Way.append ⟨[c], [], rest⟩ way)) =
          f ⟨c :: rest.takeWhile p, [], rest.dropWhile p⟩ :=
        flatMap_ways_many (f := fun way => f (Way.append ⟨[c], [], rest⟩ way))
          (fun way d more hway hd => h _ d more hway hd) rest
      simpa [oneOrMore, hc, List.flatMap_map] using hrest

/-- A pattern behind a row of characters takes what follows them. -/
theorem match?_word_seq (front : List Char) (second : Pattern) (s : List Char) :
    (seq (word front) second).match? s = (dropFront? front s).bind fun rest =>
      (second.match? rest).map (⟨front, [], rest⟩ : Way).append := by
  cases hfront : dropFront? front s with
  | none => simp [match?_eq_head?, ways_word, hfront]
  | some rest => simp [match?_eq_head?, ways_word, hfront]

/-- A pattern behind a run takes what follows the longest one, if it can start with none of the
run's characters. -/
theorem match?_oneOrMore_seq {second : Pattern}
    (h : ∀ c rest, p c = true → second.ways (c :: rest) = []) (s : List Char) :
    (seq (oneOrMore p) second).match? s =
      if (s.takeWhile p).isEmpty then none
      else (second.match? (s.dropWhile p)).map
        (⟨s.takeWhile p, [], s.dropWhile p⟩ : Way).append := by
  have hways := flatMap_ways_oneOrMore (p := p)
    (f := fun way => (second.ways way.rest).map way.append)
    (fun way c rest hway hc => by simp [hway, h c rest hc]) s
  rw [match?_eq_head?, ways_seq, hways]
  split
  · rfl
  · exact List.head?_map

end Pattern

end StyleBundle.Text
