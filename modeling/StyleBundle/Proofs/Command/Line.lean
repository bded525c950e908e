import StyleBundle.Command.Invocation
import Mathlib.Algebra.Group.Nat.Defs
import Mathlib.Data.List.Basic
import Mathlib.Data.List.TakeDrop
import StyleBundle.Failure

/-!
# Lines of arguments

A line that names an operand first and then gives one switch again and again, each time with a
value, is taken as it is written or not at all: a word that looks like a switch is never taken for
an operand or a value.
-/

namespace StyleBundle.Command

namespace Grammar

variable {g : Grammar} {word name : String} {w : Word} {words values : List String}
  {classified rest : List Word} {s : Switch} {p q : Parsed} {fuel : Nat}

/-! ## Classified words -/

/-- A classified word is still the word. -/
theorem text_of_classify (h : g.classify word = .ok w) : w.text = word := by
  unfold classify at h
  simp only [misuse] at h
  split at h
  · cases h
    rfl
  · split at h
    · cases h
      rfl
    · split at h
      · cases h
        rfl
      · split at h
        · cases h
          rfl
        · split at h
          · cases h
            rfl
          · split at h <;> cases h <;> rfl
          · cases h

/-- The first word is classified, and then the others, unless it is two hyphens. -/
theorem exists_of_classifyAll_cons (hne : word ≠ "--")
    (h : g.classifyAll (word :: words) = .ok classified) :
    ∃ first later, g.classify word = .ok first ∧ g.classifyAll words = .ok later ∧
      classified = first :: later := by
  rw [classifyAll, if_neg hne] at h
  obtain ⟨first, hfirst, h⟩ := exists_of_bind h
  obtain ⟨later, hlater, h⟩ := exists_of_bind h
  exact ⟨first, later, hfirst, hlater, (Except.ok.inj h).symm⟩

/-- Classified words are still the words. -/
theorem map_text_of_classifyAll (h : g.classifyAll words = .ok classified) :
    classified.map Word.text = words := by
  induction words generalizing classified with
  | nil =>
    cases h
    rfl
  | cons word rest ih =>
    by_cases hdashes : word = "--"
    · rw [classifyAll, if_pos hdashes] at h
      cases h
      have hplain : Word.text ∘ Word.plain = id := rfl
      rw [List.map_cons, List.map_map, hplain, List.map_id, hdashes, Word.text]
    · obtain ⟨first, later, hfirst, hlater, rfl⟩ := exists_of_classifyAll_cons hdashes h
      rw [List.map_cons, text_of_classify hfirst, ih hlater]

/-! ## Words that are taken -/

theorem takeAll_nil (g : Grammar) (p : Parsed) (fuel : Nat) : g.takeAll p [] fuel = .ok p := by
  cases fuel <;> rfl

/-- Behind the operand, plain words are left over. -/
theorem takeAll_plain (hoperand : p.operand.isSome = true) (hfuel : words.length ≤ fuel) :
    g.takeAll p (words.map .plain) fuel = .ok { p with leftOver := p.leftOver ++ words } := by
  induction words generalizing p fuel with
  | nil => rw [List.map_nil, takeAll_nil, List.append_nil]
  | cons word rest ih =>
    obtain ⟨fuel, rfl⟩ : ∃ n, fuel = n + 1 := ⟨fuel - 1, by simp at hfuel; omega⟩
    have htaken : p.operand.isNone = false := by simpa [← Option.not_isSome] using hoperand
    have hnext := @ih { p with leftOver := p.leftOver ++ [word] } fuel hoperand
      (by simpa using hfuel)
    rw [List.append_assoc] at hnext
    rw [List.map_cons, takeAll]
    · simp only [htaken, Bool.false_eq_true, if_false]
      exact hnext
    all_goals simp

/-- A switch is taken with what it needs, which may be a plain word behind it. -/
theorem exists_of_takeAll_known {attached : Option Attached}
    (h : g.takeAll p (.known word s name attached :: rest) (fuel + 1) = .ok q) :
    ∃ bundle given more, g.take s name attached = .ok bundle ∧
      (bundle.awaiting = none ∧ given = bundle.given ∧ more = rest ∨ ∃ last value,
        bundle.awaiting = some last ∧ given = bundle.given ++ [⟨last, some value⟩] ∧
        rest = .plain value :: more) ∧
      g.takeAll
        { p with
          given := p.given ++ given
          leftOver := p.leftOver ++ bundle.leftOver.toList } more fuel = .ok q := by
  rw [takeAll] at h
  obtain ⟨bundle, hbundle, h⟩ := exists_of_bind h
  cases hawaiting : bundle.awaiting with
  | none =>
    simp only [hawaiting] at h
    obtain ⟨⟨given, more⟩, htaken, h⟩ := exists_of_bind h
    cases htaken
    split at h
    · cases h
    · exact ⟨bundle, _, _, hbundle, .inl ⟨hawaiting, rfl, rfl⟩, h⟩
  | some last =>
    simp only [hawaiting] at h
    split at h
    · rename_i hnone _
      cases hnone
    · rename_i last' value more hsome _
      cases hsome
      obtain ⟨⟨given, more⟩, htaken, h⟩ := exists_of_bind h
      cases htaken
      split at h
      · cases h
      · exact ⟨bundle, _, _, hbundle, .inr ⟨last, value, hawaiting, rfl, rfl⟩, h⟩
    · obtain ⟨_, hmisuse, -⟩ := exists_of_bind h
      cases hmisuse

/-- A switch that takes a value, under one of its names. -/
structure IsNamed (g : Grammar) (s : Switch) (name : String) : Prop where
  /-- The name is that of the switch. -/
  classify_eq : g.classify name = .ok (.known name s name none)
  /-- The name is no pair of hyphens. -/
  ne_dashes : name ≠ "--"
  /-- A value follows. -/
  takesValue : s.takesValue = true

/-- The words that give a switch some values, one after the other. -/
def repeated (name : String) (values : List String) : List String :=
  values.flatMap fun value => [name, value]

theorem repeated_cons (name value : String) (values : List String) :
    repeated name (value :: values) = name :: value :: repeated name values := rfl

theorem length_repeated_ne_one (name : String) (values : List String) :
    (repeated name values).length ≠ 1 := by
  cases values with
  | nil => simp [repeated]
  | cons value values => simp [repeated_cons]

/-- Where a switch is given again and again, each word behind it is its value. -/
theorem takeAll_repeated (hname : g.IsNamed s name)
    (hclassified : g.classifyAll (repeated name values) = .ok classified)
    (hfuel : classified.length ≤ fuel) (h : g.takeAll p classified fuel = .ok q) :
    q = { p with given := p.given ++ values.map fun value => ⟨s, some value⟩ } := by
  induction values generalizing classified fuel p with
  | nil =>
    cases hclassified
    rw [List.map_nil, List.append_nil]
    exact (Except.ok.inj ((takeAll_nil g p fuel).symm.trans h)).symm
  | cons value values ih =>
    rw [repeated_cons] at hclassified
    obtain ⟨first, later, hfirst, hlater, rfl⟩ :=
      exists_of_classifyAll_cons hname.ne_dashes hclassified
    obtain rfl := Except.ok.inj (hname.classify_eq.symm.trans hfirst)
    obtain ⟨fuel, rfl⟩ : ∃ n, fuel = n + 1 := ⟨fuel - 1, by simp at hfuel; omega⟩
    obtain ⟨bundle, given, more, hbundle, htaken, h⟩ := exists_of_takeAll_known h
    rw [take, bare, if_pos hname.takesValue] at hbundle
    obtain rfl := Except.ok.inj hbundle
    rcases htaken with ⟨hnone, -⟩ | ⟨last, value', hlast, rfl, rfl⟩
    · cases hnone
    · obtain rfl := Option.some.inj hlast
      -- Two hyphens are no plain word, so the value is classified like any other word.
      have hdashes : value ≠ "--" := by
        rintro rfl
        rw [classifyAll, if_pos rfl] at hlater
        cases hlater
      obtain ⟨_, _, hvalue, hmore, heq⟩ := exists_of_classifyAll_cons hdashes hlater
      obtain ⟨rfl, rfl⟩ := List.cons.inj heq
      obtain rfl : value' = value := text_of_classify hvalue
      rw [ih hmore (by simp at hfuel; omega) h]
      simp

/-- Words that give a switch again and again start with the switch, if there are any. -/
theorem classified_repeated (hname : g.IsNamed s name)
    (h : g.classifyAll (repeated name values) = .ok classified) :
    classified = [] ∨ ∃ later, classified = .known name s name none :: later := by
  cases values with
  | nil => exact .inl (Except.ok.inj h).symm
  | cons value values =>
    obtain ⟨first, later, hfirst, -, rfl⟩ := exists_of_classifyAll_cons hname.ne_dashes h
    obtain rfl := Except.ok.inj (hname.classify_eq.symm.trans hfirst)
    exact .inr ⟨later, rfl⟩

/-- A plain word is the operand if nothing has been the operand before. -/
theorem takeAll_plain_cons (hone : g.takesAll = false) (hnone : p.operand = none)
    (word : String) (rest : List Word) (fuel : Nat) :
    g.takeAll p (.plain word :: rest) (fuel + 1) =
      g.takeAll { p with operand := some [word] } (rest.dropWhile (· = .dashes)) fuel := by
  rw [takeAll]
  · simp [hnone, operand?, hone]
  all_goals simp

/-- Behind two hyphens the first word is the operand, and the others are left over. Two hyphens
alone are left over themselves. -/
theorem leftOver_ne_nil_of_dashes (hone : g.takesAll = false) (hlength : words.length ≠ 1)
    (hfuel : words.length ≤ fuel)
    (h : g.takeAll ⟨[], none, []⟩ (.dashes :: words.map .plain) (fuel + 1) = .ok q) :
    q.leftOver ≠ [] := by
  rw [takeAll] at h
  · cases words with
    | nil =>
      have hleft : g.takeAll ⟨[], none, ["--"]⟩ [] fuel = .ok q := h
      rw [takeAll_nil] at hleft
      rw [← Except.ok.inj hleft]
      exact List.cons_ne_nil _ _
    | cons first words =>
      have hbehind : g.takeAll ⟨[], some [first], []⟩ (words.map .plain) fuel = .ok q := by
        simpa [operand?, hone] using h
      have hq := takeAll_plain (g := g) (p := ⟨[], some [first], []⟩) rfl
        (Nat.le_of_succ_le hfuel)
      rw [← Except.ok.inj (hq.symm.trans hbehind)]
      simpa using hlength
  all_goals simp

/-- An operand in front of a switch that is given again and again: if nothing is left over, the
operand is the first word, and the switch has the words behind it. -/
theorem eq_of_parse_repeated (hname : g.IsNamed s name) (hone : g.takesAll = false)
    (h : g.parse (word :: repeated name values) = .ok q) (hoperand : q.operand.isSome = true)
    (hleft : q.leftOver = []) :
    q = ⟨values.map fun value => ⟨s, some value⟩, some [word], []⟩ := by
  obtain ⟨classified, hclassified, htaken⟩ := exists_of_bind h
  by_cases hdashes : word = "--"
  · rw [classifyAll, if_pos hdashes] at hclassified
    obtain rfl := Except.ok.inj hclassified
    have hmore := leftOver_ne_nil_of_dashes hone (length_repeated_ne_one _ _) (by simp) htaken
    exact absurd hleft hmore
  · obtain ⟨first, later, hfirst, hlater, rfl⟩ := exists_of_classifyAll_cons hdashes hclassified
    have htext := text_of_classify hfirst
    have hstart := classified_repeated hname hlater
    -- Only a plain word becomes the operand, since the words behind it are switches and their
    -- values.
    cases first with
    | plain text =>
      obtain rfl : text = word := htext
      have hdrop : later.dropWhile (· = .dashes) = later := by
        rcases hstart with rfl | ⟨later, rfl⟩
        · rfl
        · exact List.dropWhile_cons_of_neg (by simp)
      rw [List.length_cons, takeAll_plain_cons hone rfl, hdrop] at htaken
      exact takeAll_repeated hname hlater (by simp) htaken
    | dashes => exact absurd htext.symm hdashes
    | known text t name' attached =>
      obtain ⟨bundle, given, more, -, hmore, hrest⟩ := exists_of_takeAll_known htaken
      rcases hmore with ⟨-, rfl, rfl⟩ | ⟨_, value, -, rfl, rfl⟩
      · rw [takeAll_repeated hname hlater (by simp) hrest] at hoperand
        cases hoperand
      · rcases hstart with hnil | ⟨_, hknown⟩
        · cases hnil
        · cases hknown
    | unknown text =>
      rw [List.length_cons, takeAll] at htaken
      rw [takeAll_repeated hname hlater (by simp) htaken] at hoperand
      cases hoperand

/-- Where the operand takes all that follows, a plain word in front is the operand with the words
behind it. -/
theorem parse_of_takesAll (hall : g.takesAll = true) (hword : g.classify word = .ok (.plain word))
    (hne : word ≠ "--") (h : g.parse (word :: words) = .ok q) :
    q = ⟨[], some (word :: words), []⟩ := by
  obtain ⟨classified, hclassified, htaken⟩ := exists_of_bind h
  have htexts := map_text_of_classifyAll hclassified
  obtain ⟨first, later, hfirst, -, rfl⟩ := exists_of_classifyAll_cons hne hclassified
  obtain rfl := Except.ok.inj (hword.symm.trans hfirst)
  have hoperand : g.operand? (.plain word :: later) = some (word :: words, []) := by
    rw [← htexts]
    simp [operand?, hall]
  rw [List.length_cons, takeAll] at htaken
  · simp only [Option.isNone_none, if_true, hoperand] at htaken
    exact (Except.ok.inj htaken).symm
  all_goals simp

end Grammar

/-! ## The line that asks for dependencies -/

/-- The line that asks for the dependencies of a file, with directories that are searched. -/
def listingLine (file : String) (includePaths : List String) : List String :=
  "deps" :: file :: Grammar.repeated "-I" includePaths

/-- A switch that is given again and again has the values in their order. -/
theorem values_repeated (s : Switch) (values : List String) (operand : Option (List String))
    (leftOver : List String) :
    (⟨values.map fun value => ⟨s, some value⟩, operand, leftOver⟩ : Parsed).values s = values := by
  simp [Parsed.values, List.filterMap_map]

/-- The command that lists dependencies has the switch for directories. -/
theorem isNamed_includeSwitch : dependenciesGrammar.IsNamed includeSwitch "-I" :=
  ⟨by decide, by decide, rfl⟩

/-- If the line is taken, it asks for just that. -/
theorem eq_of_parse_listingLine {file : String} {includePaths : List String}
    {invocation : Invocation}
    (h : Invocation.parse (listingLine file includePaths) = .ok invocation) :
    invocation = ⟨false, some (.dependencies includePaths, file)⟩ := by
  obtain ⟨outer, houter, h⟩ := exists_of_bind h
  obtain rfl := Grammar.parse_of_takesAll rfl (by decide) (by decide) houter
  have hentry : entries.find? (·.name = "deps") = some ⟨"deps", dependenciesGrammar,
      fun p => .dependencies (p.values includeSwitch)⟩ := by rfl
  simp only [hentry] at h
  obtain ⟨inner, hinner, h⟩ := exists_of_bind h
  split at h
  next asked more hoperand =>
    obtain ⟨⟨task, leftOver⟩, htask, h⟩ := exists_of_bind h
    obtain ⟨rfl, rfl⟩ := Prod.mk.inj (Except.ok.inj htask)
    split at h
    next hempty =>
      have hleft : inner.leftOver = [] := by simpa using hempty
      have hsome : inner.operand.isSome = true := by rw [hoperand, Option.isSome_some]
      have hsame := Grammar.eq_of_parse_repeated isNamed_includeSwitch rfl hinner hsome hleft
      rw [hsame] at hoperand h
      obtain ⟨rfl, -⟩ := List.cons.inj (Option.some.inj hoperand)
      rw [← Except.ok.inj h, values_repeated]
      rfl
    next => cases h
  next =>
    obtain ⟨_, hmisuse, -⟩ := exists_of_bind h
    cases hmisuse

end StyleBundle.Command
