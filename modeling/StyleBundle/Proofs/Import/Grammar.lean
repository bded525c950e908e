import StyleBundle.Proofs.Import.Weave
import StyleBundle.Proofs.Text.Pattern

/-!
# The grammar of statements

A statement is what a pattern takes: the word `@import`, blanks, a target in single quotes, in
double quotes or without quotes, then spaces and tabs, and a semicolon if there is one. A matcher
that backtracks takes the same statements as the scan. Both take what can be said without
backtracking: each part of a statement is the longest run of its characters, and the target is
quoted if it can be.
-/

namespace StyleBundle.Import

open Text (Pattern Way IsRun)

/-! ## The pattern -/

/-- A target in quotes of one kind, kept under a number. -/
def quotedPattern (number : Nat) (quote : Char) : Pattern :=
  .seq (.one (· == quote))
    (.seq (.group number (.oneOrMore (· ≠ quote))) (.one (· == quote)))

/-- A target in single quotes, in double quotes, or without quotes. -/
def targetPattern : Pattern :=
  .choice (quotedPattern 1 '\'') (.choice (quotedPattern 2 '"') (.group 3 (.oneOrMore isBare)))

/-- Whether a character may stand between a target and its semicolon. -/
def isGap (c : Char) : Bool := c = ' ' || c = '\t'

/-- What belongs to a statement behind its target. -/
def endPattern : Pattern := .seq (.many isGap) (.optional (.one (· == ';')))

/-- A statement. -/
def statementPattern : Pattern :=
  .seq (.word keyword) (.seq (.oneOrMore Text.isBlank) (.seq targetPattern endPattern))

/-- The target of a match: what the first group has taken that has taken anything. -/
def targetOf (way : Way) : List Char :=
  ([1, 2, 3].findSome? fun number => Table.get? number way.groups).getD []

/-- The statement that a match makes. -/
def Statement.ofWay (way : Way) : Statement :=
  ⟨String.ofList way.taken, String.ofList (targetOf way)⟩

/-! ## Statements without backtracking -/

/-- A text starts with a target in quotes: one character at least, up to the first quote of the
kind that opens it. -/
def IsQuoted (s target rest : List Char) : Prop :=
  ∃ quote, (quote = '\'' ∨ quote = '"') ∧ target ≠ [] ∧ quote ∉ target ∧
    s = quote :: target ++ quote :: rest

/-- A text starts with a target: one in quotes if there is one, and else the longest run of
characters that are neither blanks nor semicolons. -/
def IsTarget (s target rest : List Char) : Prop :=
  IsQuoted s target rest ∨
    (∀ other more, ¬ IsQuoted s other more) ∧ s = target ++ rest ∧ target ≠ [] ∧
      IsRun isBare target rest

/-- A text starts with a statement. -/
inductive IsStatement (s target rest : List Char) : Prop
  /-- The word, all blanks behind it, a target, all spaces and tabs, and a semicolon if one
  follows. -/
  | intro {blanks behind gap ending : List Char} (word : s = keyword ++ (blanks ++ behind))
      (blank : blanks ≠ [] ∧ IsRun Text.isBlank blanks behind)
      (target : IsTarget behind target (gap ++ ending)) (gap : IsRun isGap gap ending)
      (semicolon : ending = ';' :: rest ∨ ending = rest ∧ rest.head? ≠ some ';')

/-- The statements of a text in order, and no statement starts in the gaps between them. -/
inductive Divides : List Char → List Statement → Prop
  /-- No statement starts anywhere. -/
  | done {s : List Char} (h : ∀ behind target rest, behind <:+ s → ¬ IsStatement behind target rest) :
      Divides s []
  /-- No statement starts before the first one, and the search goes on where that one ends. -/
  | next {gap text target rest : List Char} {more : List Statement}
      (hgap : ∀ behind other after, behind <:+ gap → behind ≠ [] →
        ¬ IsStatement (behind ++ (text ++ rest)) other after)
      (htext : IsStatement (text ++ rest) target rest) (hmore : Divides rest more) :
      Divides (gap ++ (text ++ rest)) (⟨String.ofList text, String.ofList target⟩ :: more)

/-! ## What the scan takes -/

variable {s target rest after : List Char}

theorem quotedTarget?_eq_some_iff :
    quotedTarget? s = some (target, rest) ↔ IsQuoted s target rest := by
  constructor
  · intro h
    cases s with
    | nil => cases h
    | cons quote behind =>
      rw [quotedTarget?] at h
      split at h
      next hquote =>
        have hrun := Text.isRun_takeWhile (· ≠ quote) behind
        have hsplit := List.takeWhile_append_dropWhile (p := (· ≠ quote)) (l := behind)
        simp only at h
        generalize behind.takeWhile (· ≠ quote) = run at h hrun hsplit
        generalize behind.dropWhile (· ≠ quote) = ending at h hrun hsplit
        subst hsplit
        cases ending with
        | nil => cases h
        | cons c after =>
          obtain rfl : c = quote := by simpa using hrun.2 c rfl
          simp only at h
          split at h
          · cases h
          next hne =>
            obtain ⟨rfl, rfl⟩ : run = target ∧ after = rest := by simpa using h
            refine ⟨c, hquote, by simpa using hne, fun hmem => ?_, rfl⟩
            simpa using hrun.1 c hmem
      next => cases h
  · rintro ⟨quote, hquote, hne, hmem, rfl⟩
    have hrun : IsRun (· ≠ quote) target (quote :: rest) :=
      ⟨fun c hc => by simpa using ne_of_mem_of_not_mem hc hmem, by simp⟩
    rw [List.cons_append, quotedTarget?, if_pos hquote, hrun.takeWhile_append,
      hrun.dropWhile_append]
    simp [hne]

theorem bareTarget?_eq_some_iff : bareTarget? s = some (target, rest) ↔
    s = target ++ rest ∧ target ≠ [] ∧ IsRun isBare target rest := by
  unfold bareTarget?
  constructor
  · intro h
    simp only at h
    split at h
    · cases h
    next hne =>
      obtain ⟨rfl, rfl⟩ : s.takeWhile isBare = target ∧ s.dropWhile isBare = rest := by simpa using h
      exact ⟨List.takeWhile_append_dropWhile.symm, by simpa using hne,
        Text.isRun_takeWhile isBare s⟩
  · rintro ⟨rfl, hne, hrun⟩
    simp [hrun.takeWhile_append, hrun.dropWhile_append, hne]

theorem target?_eq_some_iff : target? s = some (target, rest) ↔ IsTarget s target rest := by
  unfold target? IsTarget
  cases hquoted : quotedTarget? s with
  | some found =>
    obtain ⟨other, more⟩ := found
    have hother := quotedTarget?_eq_some_iff.1 hquoted
    simp only [Option.some.injEq, Prod.mk.injEq]
    constructor
    · rintro ⟨rfl, rfl⟩
      exact .inl hother
    · rintro (h | h)
      · simpa [hquoted] using quotedTarget?_eq_some_iff.2 h
      · exact absurd hother (h.1 _ _)
  | none =>
    have hnone : ∀ other more, ¬ IsQuoted s other more := by
      intro other more h
      simpa [hquoted] using quotedTarget?_eq_some_iff.2 h
    simp [hnone, bareTarget?_eq_some_iff]

theorem skipEnd_eq_iff : skipEnd after = rest ↔ ∃ gap ending, after = gap ++ ending ∧
    IsRun isGap gap ending ∧ (ending = ';' :: rest ∨ ending = rest ∧ rest.head? ≠ some ';') := by
  have hgaps : (after.dropWhile fun c => c = ' ' || c = '\t') = after.dropWhile isGap := rfl
  rw [skipEnd, hgaps]
  constructor
  · intro h
    refine ⟨after.takeWhile isGap, after.dropWhile isGap,
      List.takeWhile_append_dropWhile.symm, Text.isRun_takeWhile isGap after, ?_⟩
    split at h
    next more hmore =>
      subst h
      exact .inl hmore
    next hother =>
      refine .inr ⟨h, fun hhead => ?_⟩
      obtain ⟨more, hmore⟩ := List.head?_eq_some_iff.1 hhead
      exact hother more (h.trans hmore)
  · rintro ⟨gap, ending, rfl, hrun, hending⟩
    rw [hrun.dropWhile_append]
    rcases hending with rfl | ⟨rfl, hhead⟩
    · rfl
    · split
      next more => simp at hhead
      next => rfl

/-- The scan takes a statement exactly where one starts. -/
theorem parse?_eq_some_iff : parse? s = some (target, rest) ↔ IsStatement s target rest := by
  unfold parse?
  constructor
  · intro h
    split at h
    · cases h
    next behind hfront =>
      split at h
      · cases h
      next hne =>
        obtain ⟨⟨found, after⟩, htarget, heq⟩ := Option.map_eq_some_iff.1 h
        obtain ⟨rfl, hend⟩ : found = target ∧ skipEnd after = rest := by simpa using heq
        obtain ⟨gap, ending, rfl, hgap, hending⟩ := skipEnd_eq_iff.1 hend
        refine .intro ?_ ⟨by simpa using hne, Text.isRun_takeWhile Text.isBlank behind⟩
          (target?_eq_some_iff.1 htarget) hgap hending
        rw [List.takeWhile_append_dropWhile]
        exact Text.dropFront?_eq_some_iff.1 hfront
  · rintro ⟨rfl, ⟨hne, hblanks⟩, htarget, hgap, hending⟩
    simp only [Text.dropFront?_eq_some_iff.2 rfl, hblanks.takeWhile_append,
      hblanks.dropWhile_append, target?_eq_some_iff.2 htarget, Option.map_some,
      skipEnd_eq_iff.2 ⟨_, _, rfl, hgap, hending⟩]
    simp [hne]

/-! ## What the pattern takes -/

/-- A target in quotes of one kind is taken in one way at most. -/
theorem ways_quotedPattern (number : Nat) (quote c : Char) (behind : List Char) :
    (quotedPattern number quote).ways (c :: behind) =
      if c = quote then
        match behind.dropWhile (· ≠ quote) with
        | [] => []
        | _ :: after =>
          if (behind.takeWhile (· ≠ quote)).isEmpty then []
          else [⟨quote :: behind.takeWhile (· ≠ quote) ++ [quote],
            [(number, behind.takeWhile (· ≠ quote))], after⟩]
      else [] := by
  by_cases hc : c = quote
  · subst hc
    have hrun := Text.isRun_takeWhile (· ≠ c) behind
    have hways := Pattern.flatMap_ways_oneOrMore (p := (· ≠ c))
      (f := fun way => (Pattern.ways (.one (· == c)) way.rest).map (way.keep number).append)
      (fun way d more hway hd => by
        have hne : d ≠ c := by simpa using hd
        simp [hway, hne]) behind
    simp only [quotedPattern, Pattern.ways_group, Pattern.ways_seq, Pattern.ways_one_cons,
      beq_self_eq_true, if_true, List.flatMap_cons, List.flatMap_nil, List.append_nil,
      List.flatMap_map]
    refine (congrArg (List.map _) hways).trans ?_
    generalize behind.takeWhile (· ≠ c) = run at hrun
    generalize behind.dropWhile (· ≠ c) = ending at hrun
    cases ending with
    | nil => cases run <;> rfl
    | cons d after =>
      obtain rfl : d = c := by simpa using hrun.2 d rfl
      cases run <;> simp [Way.keep, Way.append]
  · simp [quotedPattern, hc]

/-- The target and the rest that a match gives. -/
def partsOf (way : Way) : List Char × List Char := (targetOf way, way.rest)

/-- A pattern for quotes of one kind takes the target in them. -/
theorem match?_quotedPattern {number : Nat} (hnumber : number = 1 ∨ number = 2) {quote : Char}
    (hquote : quote = '\'' ∨ quote = '"') (s : List Char) :
    ((quotedPattern number quote).match? s).map partsOf =
      if s.head? = some quote then quotedTarget? s else none := by
  cases s with
  | nil => rfl
  | cons c behind =>
    rw [Pattern.match?_eq_head?, ways_quotedPattern]
    by_cases hc : c = quote
    · subst hc
      simp only [if_true, List.head?_cons, quotedTarget?, if_pos hquote]
      generalize behind.takeWhile (· ≠ c) = run
      cases behind.dropWhile (· ≠ c) with
      | nil => rfl
      | cons d after =>
        cases run with
        | nil => rfl
        | cons e run => rcases hnumber with rfl | rfl <;> rfl
    · simp [hc]

/-- The pattern takes the target that is found without backtracking. -/
theorem match?_targetPattern (s : List Char) : (targetPattern.match? s).map partsOf = target? s := by
  have hbare : (Pattern.match? (.group 3 (.oneOrMore isBare)) s).map partsOf = bareTarget? s := by
    rw [Pattern.match?_group, Pattern.match?_oneOrMore, bareTarget?]
    split <;> rfl
  have hchoice : target? s = (quotedTarget? s).or (bareTarget? s) := by
    unfold target?
    cases quotedTarget? s <;> rfl
  rw [targetPattern, Pattern.match?_choice, Pattern.match?_choice, Option.map_or, Option.map_or,
    match?_quotedPattern (.inl rfl) (.inl rfl), match?_quotedPattern (.inr rfl) (.inr rfl), hbare,
    hchoice]
  by_cases hsingle : s.head? = some '\''
  · simp [hsingle]
  · by_cases hdouble : s.head? = some '"'
    · simp [hdouble]
    · have hnone : quotedTarget? s = none := by
        cases s with
        | nil => rfl
        | cons c behind =>
          simp only [List.head?_cons, Option.some.injEq] at hsingle hdouble
          rw [quotedTarget?, if_neg (by simp [hsingle, hdouble])]
      simp [hsingle, hdouble, hnone]

/-- The pattern takes all that belongs to a statement behind its target. -/
theorem exists_match?_endPattern (s : List Char) :
    ∃ way, endPattern.match? s = some way ∧ way.groups = [] ∧ way.rest = skipEnd s := by
  have hgaps : (s.dropWhile fun c => c = ' ' || c = '\t') = s.dropWhile isGap := rfl
  have hend : ∃ way, (Pattern.optional (.one (· == ';'))).match? (s.dropWhile isGap) = some way ∧
      way.groups = [] ∧ way.rest = skipEnd s := by
    rw [skipEnd, hgaps]
    cases s.dropWhile isGap with
    | nil => exact ⟨_, rfl, rfl, rfl⟩
    | cons c rest =>
      by_cases hc : c = ';'
      · subst hc
        exact ⟨_, rfl, rfl, rfl⟩
      · refine ⟨⟨[], [], c :: rest⟩, by simp [Pattern.optional, Pattern.match?_eq_head?, hc], rfl,
          ?_⟩
        split
        next heq => exact absurd (List.cons.inj heq).1 hc
        next => rfl
  obtain ⟨way, hway, hgroups, hrest⟩ := hend
  exact ⟨_, Pattern.match?_seq (Pattern.match?_many isGap s) hway, hgroups, hrest⟩

/-- A target starts with no blank, so that what stands before it cannot end earlier. -/
theorem ways_targetPattern_eq_nil {c : Char} {behind : List Char} (hc : Text.isBlank c = true) :
    targetPattern.ways (c :: behind) = [] := by
  have hsingle : c ≠ '\'' := by rintro rfl; exact absurd hc (by decide)
  have hdouble : c ≠ '"' := by rintro rfl; exact absurd hc (by decide)
  have hbare : isBare c = false := by simp [isBare, hc]
  simp [targetPattern, ways_quotedPattern, hsingle, hdouble, Pattern.oneOrMore, hbare]

/-- What follows the blanks is taken if a target is. -/
theorem match?_rest (s : List Char) : ((Pattern.seq targetPattern endPattern).match? s).map partsOf =
    (target? s).map fun (target, after) => (target, skipEnd after) := by
  rw [← match?_targetPattern]
  cases htarget : targetPattern.match? s with
  | none =>
    have hways := List.head?_eq_none_iff.1 htarget
    simp [Pattern.match?_eq_head?, hways]
  | some way =>
    obtain ⟨ending, hending, hgroups, hrest⟩ := exists_match?_endPattern way.rest
    simp [Pattern.match?_seq htarget hending, partsOf, targetOf, Way.append, hgroups, hrest]

/-- The pattern takes a statement exactly where the scan does. -/
theorem match?_statementPattern (s : List Char) :
    (statementPattern.match? s).map partsOf = parse? s := by
  have hblank : ∀ c rest, Text.isBlank c = true →
      (Pattern.seq targetPattern endPattern).ways (c :: rest) = [] := by
    intro c rest hc
    simp [ways_targetPattern_eq_nil hc]
  rw [statementPattern, Pattern.match?_word_seq, parse?]
  cases Text.dropFront? keyword s with
  | none => rfl
  | some behind =>
    simp only [Option.bind_some, Pattern.match?_oneOrMore_seq hblank]
    split
    · rfl
    · -- What stands before the target is in no group.
      rw [← match?_rest, Option.map_map, Option.map_map]
      rfl

/-- The pattern takes exactly what can be said without backtracking. -/
theorem match?_eq_some_iff : (∃ way, statementPattern.match? s = some way ∧ targetOf way = target ∧
    way.rest = rest) ↔ IsStatement s target rest := by
  rw [← parse?_eq_some_iff, ← match?_statementPattern, Option.map_eq_some_iff]
  simp [partsOf]

/-! ## All statements -/

/-- The scan finds the matches of the pattern. -/
theorem scan_eq_findAll (s : List Char) :
    scan s = (statementPattern.findAll s).map Statement.ofWay := by
  fun_induction scan s with
  | case1 => simp [Pattern.findAll]
  | case2 c rest hnone ih =>
    have hmatch : statementPattern.match? (c :: rest) = none := by
      rwa [← match?_statementPattern, Option.map_eq_none_iff] at hnone
    rw [Pattern.findAll, hmatch, ih]
  | case3 c rest target after hsome ih =>
    obtain ⟨way, hway, rfl, rfl⟩ := match?_eq_some_iff.2 (parse?_eq_some_iff.1 hsome)
    have hless := length_lt_of_parse? hsome
    have htext : (c :: rest).take ((c :: rest).length - way.rest.length) = way.taken := by
      rw [Pattern.append_of_match? hway, List.length_append, Nat.add_sub_cancel, List.take_left]
    rw [Pattern.findAll, hway, htext, ih]
    simp only [if_pos hless, List.map_cons, Statement.ofWay]

/-- A character where no statement starts belongs to the gap before the first one. -/
theorem Divides.cons {c : Char} {statements : List Statement}
    (hc : ∀ target rest, ¬ IsStatement (c :: s) target rest) (h : Divides s statements) :
    Divides (c :: s) statements := by
  cases h with
  | done h =>
    refine .done fun behind target rest hbehind => ?_
    rcases List.suffix_cons_iff.1 hbehind with rfl | hbehind
    · exact hc target rest
    · exact h behind target rest hbehind
  | @next gap text target rest more hgap htext hmore =>
    rw [← List.cons_append]
    refine .next (fun behind other after hbehind hne => ?_) htext hmore
    rcases List.suffix_cons_iff.1 hbehind with rfl | hbehind
    · exact hc other after
    · exact hgap behind other after hbehind hne

/-- The scan divides a text into its statements. -/
theorem divides_scan (s : List Char) : Divides s (scan s) := by
  induction s using scan_induction with
  | nil =>
    rw [scan]
    refine .done fun behind target rest hbehind h => ?_
    obtain rfl := List.suffix_nil.1 hbehind
    have hempty : parse? [] = none := by decide
    cases hempty.symm.trans (parse?_eq_some_iff.2 h)
  | own c rest hparse ih =>
    rw [scan_cons_of_parse?_eq_none hparse]
    refine ih.cons fun target after h => ?_
    simp [parse?_eq_some_iff.2 h] at hparse
  | statement body target after hparse ih =>
    rw [scan_append_of_parse?_eq_some hparse, ← List.nil_append ('@' :: body ++ after)]
    exact .next (fun behind _ _ hbehind hne => absurd (List.suffix_nil.1 hbehind) hne)
      (parse?_eq_some_iff.1 hparse) ih

/-- No statement has an empty target. -/
theorem target_ne_empty {text : String} {statement : Statement} (h : statement ∈ statements text) :
    statement.target ≠ "" := by
  have hdivides := divides_scan text.toList
  rw [← statements] at hdivides
  generalize statements text = found at h hdivides
  generalize text.toList = s at hdivides
  induction hdivides with
  | done => cases h
  | next _ hstatement _ ih =>
    rcases List.mem_cons.1 h with rfl | h
    · obtain ⟨-, -, htarget, -, -⟩ := hstatement
      intro hempty
      obtain rfl : _ = [] := by simpa using hempty
      rcases htarget with ⟨-, -, hne, -⟩ | ⟨-, -, hne, -⟩
      · exact hne rfl
      · exact hne rfl
    · exact ih h

/-- A text is divided into statements in one way only. -/
theorem Divides.eq_scan {statements : List Statement} (h : Divides s statements) :
    statements = scan s := by
  have hnone {s : List Char} (h : ∀ target rest, ¬ IsStatement s target rest) : parse? s = none :=
    Option.eq_none_iff_forall_ne_some.2 fun found hfound => h _ _ (parse?_eq_some_iff.1 hfound)
  induction h with
  | @done s h =>
    induction s with
    | nil => simp [scan]
    | cons c rest ih =>
      rw [scan_cons_of_parse?_eq_none (hnone (h _ · · List.suffix_rfl))]
      exact ih fun behind target after hbehind =>
        h behind target after (hbehind.trans (List.suffix_cons c rest))
  | @next gap text target rest more hgap htext hmore ih =>
    induction gap with
    | nil =>
      have hsome := parse?_eq_some_iff.2 htext
      obtain ⟨body, hbody⟩ := exists_body_of_parse? hsome
      obtain rfl : text = '@' :: body := List.append_cancel_right hbody
      rw [List.nil_append, scan_append_of_parse?_eq_some hsome, ih]
    | cons c gap ihgap =>
      have hstep : parse? (c :: (gap ++ (text ++ rest))) = none :=
        hnone (hgap (c :: gap) · · List.suffix_rfl (by simp))
      rw [List.cons_append, scan_cons_of_parse?_eq_none hstep]
      exact ihgap fun behind other after hbehind =>
        hgap behind other after (hbehind.trans (List.suffix_cons c gap))

/-- The statements of a source are the matches of the pattern from left to right, each where the
last one ends. The pattern takes a statement exactly where one starts that can be told without
backtracking, and the statements are the only ones that divide the source into texts of statements
and gaps in which none starts. -/
theorem statements_eq_matches (source : String) :
    statements source = (statementPattern.findAll source.toList).map Statement.ofWay ∧
      (∀ s target rest, (∃ way, statementPattern.match? s = some way ∧ s = way.taken ++ rest ∧
        targetOf way = target ∧ way.rest = rest) ↔ IsStatement s target rest) ∧
      ∀ found, Divides source.toList found ↔ found = statements source := by
  refine ⟨scan_eq_findAll source.toList, fun s target rest => ?_, fun found => ?_⟩
  · rw [← match?_eq_some_iff]
    constructor
    · rintro ⟨way, hway, -, htarget, hrest⟩
      exact ⟨way, hway, htarget, hrest⟩
    · rintro ⟨way, hway, htarget, rfl⟩
      exact ⟨way, hway, Pattern.append_of_match? hway, htarget, rfl⟩
  · constructor
    · exact Divides.eq_scan
    · rintro rfl
      exact divides_scan source.toList

end StyleBundle.Import
