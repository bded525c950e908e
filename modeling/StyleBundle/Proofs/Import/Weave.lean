import StyleBundle.Import.Inline
import StyleBundle.Proofs.Text.Blank

/-!
# Statements woven into a text

A text is its statements with its own characters between them. As long as an at sign only ever
opens a statement, and statements end with their semicolon on the line on which they start, the
first occurrence of the next statement is the statement itself, whatever was taken out before and
whatever was put behind. Replacing the statements in turn is then nothing but taking them out.
-/

namespace StyleBundle.Import

/-! ## Scanning -/

/-- What follows a statement is the end of the text. -/
theorem skipEnd_suffix (s : List Char) : skipEnd s <:+ s := by
  have h := List.dropWhile_suffix (l := s) fun c => c = ' ' || c = '\t'
  unfold skipEnd
  split
  next rest hrest =>
    rw [hrest] at h
    exact (List.suffix_cons ';' rest).trans h
  next => exact h

theorem suffix_of_target? {s target after : List Char} (h : target? s = some (target, after)) :
    after <:+ s := by
  unfold target? at h
  split at h
  next found hquoted =>
    obtain rfl := Option.some.inj h
    cases s with
    | nil => simp [quotedTarget?] at hquoted
    | cons quote rest =>
      have hrest := List.dropWhile_suffix (l := rest) fun c => decide (c ≠ quote)
      rw [quotedTarget?] at hquoted
      split at hquoted
      · split at hquoted
        · cases hquoted
        next last behind hbehind =>
          dsimp only at hquoted
          split at hquoted
          · cases hquoted
          · obtain ⟨-, rfl⟩ : _ ∧ behind = after := by simpa using hquoted
            rw [hbehind] at hrest
            exact ((List.suffix_cons last behind).trans hrest).trans (List.suffix_cons quote rest)
      · cases hquoted
  next =>
    unfold bareTarget? at h
    simp only at h
    split at h
    · cases h
    · obtain ⟨-, rfl⟩ : _ ∧ s.dropWhile isBare = after := by simpa using h
      exact List.dropWhile_suffix isBare

theorem keyword_eq_cons : keyword = '@' :: "import".toList := by decide

/-- A statement at the front starts with an at sign, and what follows it is the end of the text. -/
theorem exists_body_of_parse? {s target after : List Char} (h : parse? s = some (target, after)) :
    ∃ body, s = '@' :: body ++ after := by
  unfold parse? at h
  split at h
  · cases h
  next behind hfront =>
    split at h
    · cases h
    next =>
      obtain ⟨⟨t, a⟩, htarget, heq⟩ := Option.map_eq_some_iff.1 h
      obtain ⟨rfl, rfl⟩ : t = target ∧ skipEnd a = after := by simpa using heq
      have hsuffix : skipEnd a <:+ behind :=
        ((skipEnd_suffix a).trans (suffix_of_target? htarget)).trans
          (List.dropWhile_suffix Text.isBlank)
      obtain ⟨front, rfl⟩ := hsuffix
      obtain rfl := Text.dropFront?_eq_some_iff.1 hfront
      refine ⟨"import".toList ++ front, ?_⟩
      rw [keyword_eq_cons, ← List.append_assoc, List.cons_append]

/-- A character that opens no statement is passed. -/
theorem scan_cons_of_parse?_eq_none {c : Char} {rest : List Char}
    (h : parse? (c :: rest) = none) : scan (c :: rest) = scan rest := by
  rw [scan]
  split
  next => rfl
  next hsome => simp [h] at hsome

/-- A statement at the front comes first. -/
theorem scan_append_of_parse?_eq_some {body target after : List Char}
    (h : parse? ('@' :: body ++ after) = some (target, after)) :
    scan ('@' :: body ++ after) =
      ⟨String.ofList ('@' :: body), String.ofList target⟩ :: scan after := by
  rw [List.cons_append] at h ⊢
  rw [scan]
  split
  next hnone => simp [h] at hnone
  next target' after' hsome =>
    obtain ⟨rfl, rfl⟩ : target = target' ∧ after = after' := by simpa [h] using hsome
    have htake : ('@' :: (body ++ after)).length - after.length = ('@' :: body).length := by
      simp only [List.length_cons, List.length_append]
      omega
    rw [htake, ← List.cons_append, List.take_left]

/-- A property of all texts, by what stands at the front: a character that opens no statement, or a
statement. -/
theorem scan_induction {motive : List Char → Prop} (nil : motive [])
    (own : ∀ c rest, parse? (c :: rest) = none → motive rest → motive (c :: rest))
    (statement : ∀ body target after, parse? ('@' :: body ++ after) = some (target, after) →
      motive after → motive ('@' :: body ++ after)) (s : List Char) : motive s := by
  fun_induction scan s with
  | case1 => exact nil
  | case2 c rest hnone ih => exact own c rest hnone ih
  | case3 c rest target after hsome ih =>
    obtain ⟨body, hbody⟩ := exists_body_of_parse? hsome
    rw [hbody] at hsome ⊢
    exact statement body target after hsome ih

/-- Without an at sign no statement opens. -/
theorem parse?_eq_none_of_not_mem {s : List Char} (h : '@' ∉ s) : parse? s = none := by
  rw [Option.eq_none_iff_forall_ne_some]
  rintro ⟨target, after⟩ hparse
  obtain ⟨body, rfl⟩ := exists_body_of_parse? hparse
  exact h (by simp)

/-- Without an at sign there is no statement. -/
theorem scan_eq_nil_of_not_mem {s : List Char} (h : '@' ∉ s) : scan s = [] := by
  induction s with
  | nil => rw [scan]
  | cons c rest ih =>
    rw [scan_cons_of_parse?_eq_none (parse?_eq_none_of_not_mem h),
      ih fun hmem => h (List.mem_cons_of_mem c hmem)]

/-- A text that starts with a statement, behind which no other opens. -/
theorem statements_of_parse? {text : String} {statement : Statement} (after : List Char)
    (hparse : parse? text.toList = some (statement.target.toList, after))
    (htext : text.toList = statement.text.toList ++ after) (hafter : '@' ∉ after) :
    statements text = [statement] := by
  obtain ⟨body, hbody⟩ := exists_body_of_parse? hparse
  have hstatement : statement.text.toList = '@' :: body :=
    List.append_cancel_right (htext.symm.trans hbody)
  rw [hbody] at hparse
  rw [statements, hbody, scan_append_of_parse?_eq_some hparse, scan_eq_nil_of_not_mem hafter,
    ← hstatement, String.ofList_toList, String.ofList_toList]

/-- The text without its statements. -/
def ownText (s : List Char) : List Char :=
  match s with
  | [] => []
  | c :: rest =>
    match _h : parse? (c :: rest) with
    | none => c :: ownText rest
    | some (_, after) => ownText after
termination_by s.length
decreasing_by
  · simp
  · exact length_lt_of_parse? _h

/-- A character that opens no statement is the text's own. -/
theorem ownText_cons_of_parse?_eq_none {c : Char} {rest : List Char}
    (h : parse? (c :: rest) = none) : ownText (c :: rest) = c :: ownText rest := by
  rw [ownText]
  split
  next => rfl
  next hsome => simp [h] at hsome

/-- Nothing of a statement is the text's own. -/
theorem ownText_of_parse?_eq_some {s target after : List Char}
    (h : parse? s = some (target, after)) : ownText s = ownText after := by
  cases s with
  | nil =>
    obtain ⟨body, hbody⟩ := exists_body_of_parse? h
    simp at hbody
  | cons c rest =>
    rw [ownText]
    split
    next hnone => simp [h] at hnone
    next target' after' hsome =>
      obtain ⟨-, rfl⟩ : target = target' ∧ after = after' := by simpa [h] using hsome
      rfl

/-- A text in which every at sign opens a statement, and every statement ends with a semicolon and
stands on one line. -/
structure IsSingleLine (s : List Char) : Prop where
  /-- No at sign stands outside the statements. -/
  own : '@' ∉ ownText s
  /-- None stands inside a statement. -/
  inside : ∀ statement ∈ scan s, '@' ∉ statement.text.toList.tail
  /-- Statements end with a semicolon. -/
  terminated : ∀ statement ∈ scan s, statement.text.toList.getLast? = some ';'
  /-- Statements hold no line break. -/
  unbroken : ∀ statement ∈ scan s,
    '\n' ∉ statement.text.toList ∧ '\r' ∉ statement.text.toList

/-- A text without at signs is its own. -/
theorem ownText_eq_self_of_not_mem {s : List Char} (h : '@' ∉ s) : ownText s = s := by
  induction s with
  | nil => rw [ownText]
  | cons c rest ih =>
    rw [ownText_cons_of_parse?_eq_none (parse?_eq_none_of_not_mem h),
      ih fun hmem => h (List.mem_cons_of_mem c hmem)]

/-- A text without at signs is on single lines. -/
theorem IsSingleLine.of_not_mem {s : List Char} (h : '@' ∉ s) : IsSingleLine s := by
  have hscan := scan_eq_nil_of_not_mem h
  refine ⟨?_, by simp [hscan], by simp [hscan], by simp [hscan]⟩
  rwa [ownText_eq_self_of_not_mem h]

/-! ## Weaving -/

/-- What a statement is in a text on single lines: an at sign opens it and a semicolon ends it,
with neither an at sign nor a line break between them. -/
structure IsTerminated (statement : List Char) : Prop where
  /-- An at sign opens the statement. -/
  opened : statement.head? = some '@'
  /-- No other stands behind it. -/
  inside : '@' ∉ statement.tail
  /-- A semicolon ends the statement. -/
  terminated : statement.getLast? = some ';'
  /-- No line break stands in it. -/
  unbroken : '\n' ∉ statement ∧ '\r' ∉ statement

/-- A text that consists of statements, in order, and characters of its own, none of them an at
sign. -/
inductive Woven : (statements : List (List Char)) → (s own : List Char) → Prop
  /-- The empty text. -/
  | nil : Woven [] [] []
  /-- A character of the text's own. -/
  | own {c : Char} {statements s own} (hc : c ≠ '@') (h : Woven statements s own) :
      Woven statements (c :: s) (c :: own)
  /-- A statement. -/
  | statement {statement statements s own} (hstatement : IsTerminated statement)
      (h : Woven statements s own) : Woven (statement :: statements) (statement ++ s) own

/-- A statement in front of a text on single lines. -/
theorem IsSingleLine.append {body target after : List Char}
    (hparse : parse? ('@' :: body ++ after) = some (target, after))
    (hstatement : IsTerminated ('@' :: body)) (h : IsSingleLine after) :
    IsSingleLine ('@' :: body ++ after) := by
  have hscan := scan_append_of_parse?_eq_some hparse
  refine ⟨ownText_of_parse?_eq_some hparse ▸ h.own, ?_, ?_, ?_⟩
  · rw [hscan]
    refine List.forall_mem_cons.2 ⟨by simpa using hstatement.inside, h.inside⟩
  · rw [hscan]
    refine List.forall_mem_cons.2 ⟨by simpa using hstatement.terminated, h.terminated⟩
  · rw [hscan]
    refine List.forall_mem_cons.2 ⟨by simpa using hstatement.unbroken, h.unbroken⟩

/-- A text on single lines is woven from the statements that the scan finds. -/
theorem IsSingleLine.woven {s : List Char} (h : IsSingleLine s) :
    Woven ((scan s).map (·.text.toList)) s (ownText s) := by
  induction s using scan_induction with
  | nil =>
    rw [scan, ownText]
    exact .nil
  | own c rest hparse ih =>
    obtain ⟨hown, hinside, hterminated, hunbroken⟩ := h
    rw [scan_cons_of_parse?_eq_none hparse] at hinside hterminated hunbroken ⊢
    rw [ownText_cons_of_parse?_eq_none hparse] at hown ⊢
    simp only [List.mem_cons, not_or] at hown
    exact .own (Ne.symm hown.1) (ih ⟨hown.2, hinside, hterminated, hunbroken⟩)
  | statement body target after hparse ih =>
    obtain ⟨hown, hinside, hterminated, hunbroken⟩ := h
    rw [scan_append_of_parse?_eq_some hparse] at hinside hterminated hunbroken ⊢
    rw [ownText_of_parse?_eq_some hparse] at hown ⊢
    obtain ⟨hinside, hinside'⟩ := List.forall_mem_cons.1 hinside
    obtain ⟨hterminated, hterminated'⟩ := List.forall_mem_cons.1 hterminated
    obtain ⟨hunbroken, hunbroken'⟩ := List.forall_mem_cons.1 hunbroken
    have hstatement : IsTerminated ('@' :: body) :=
      ⟨rfl, by simpa using hinside, by simpa using hterminated, by simpa using hunbroken⟩
    rw [List.map_cons, String.toList_ofList]
    exact .statement hstatement (ih ⟨hown, hinside', hterminated', hunbroken'⟩)

namespace IsTerminated

variable {statement : List Char}

/-- A statement is its at sign and a rest without one. -/
theorem exists_rest (h : IsTerminated statement) : ∃ rest, statement = '@' :: rest ∧ '@' ∉ rest := by
  obtain ⟨rest, rfl⟩ := List.head?_eq_some_iff.1 h.opened
  exact ⟨rest, rfl, h.inside⟩

/-- Dropping line breaks leaves a statement as it is. -/
theorem dropLineBreaks_eq (h : IsTerminated statement) :
    Text.dropLineBreaks statement = statement := by
  apply List.filter_eq_self.2
  intro c hc
  have hfeed : c ≠ '\n' := fun e => h.unbroken.1 (e ▸ hc)
  have hreturn : c ≠ '\r' := fun e => h.unbroken.2 (e ▸ hc)
  simp [hfeed, hreturn]

end IsTerminated

namespace Woven

variable {statements : List (List Char)} {statement s own : List Char}

/-- Without statements a text is its own, and holds no at sign. -/
theorem eq_own (h : Woven statements s own) (hnil : statements = []) : s = own ∧ '@' ∉ own := by
  induction h with
  | nil => simp
  | own hc _ ih =>
    obtain ⟨rfl, hown⟩ := ih hnil
    simp [hown, Ne.symm hc]
  | statement => cases hnil

/-- An empty text is woven from nothing. -/
theorem of_nil (h : Woven statements s own) (hnil : s = []) : statements = [] ∧ own = [] := by
  cases h with
  | nil => simp
  | own => cases hnil
  | statement hstatement =>
    obtain ⟨rest, rfl, -⟩ := hstatement.exists_rest
    simp at hnil

/-- Text without an at sign may be put behind. -/
theorem append (h : Woven statements s own) {t : List Char} (ht : '@' ∉ t) :
    Woven statements (s ++ t) (own ++ t) := by
  induction h with
  | nil =>
    induction t with
    | nil => exact .nil
    | cons c rest ih =>
      simp only [List.mem_cons, not_or] at ht
      exact .own (Ne.symm ht.1) (ih ht.2)
  | own hc _ ih => exact .own hc ih
  | statement hstatement _ ih =>
    rw [List.append_assoc]
    exact .statement hstatement ih

/-- Line breaks may be dropped. -/
theorem dropLineBreaks (h : Woven statements s own) :
    Woven statements (Text.dropLineBreaks s) (Text.dropLineBreaks own) := by
  induction h with
  | nil => exact .nil
  | own hc _ ih =>
    rw [Text.dropLineBreaks_cons, Text.dropLineBreaks_cons]
    split
    next => exact ih
    next => exact .own hc ih
  | statement hstatement _ ih =>
    rw [Text.dropLineBreaks_append, hstatement.dropLineBreaks_eq]
    exact .statement hstatement ih

/-- Blanks may be taken off the front, since no statement starts with one. -/
theorem trimStart (h : Woven statements s own) : ∃ own',
    Text.dropBlanks own' = Text.dropBlanks own ∧ Woven statements (Text.trimStart s) own' := by
  induction h with
  | nil => exact ⟨[], rfl, .nil⟩
  | @own c statements s own hc h ih =>
    rw [Text.trimStart_cons]
    split
    next hblank =>
      obtain ⟨own', hown, htrim⟩ := ih
      exact ⟨own', by rw [hown, Text.dropBlanks_cons_of_isBlank hblank], htrim⟩
    next => exact ⟨c :: own, rfl, .own hc h⟩
  | @statement statement statements s own hstatement h ih =>
    obtain ⟨rest, rfl, hrest⟩ := id hstatement.exists_rest
    refine ⟨own, rfl, ?_⟩
    rw [List.cons_append, Text.trimStart_cons, if_neg (by decide), ← List.cons_append]
    exact .statement hstatement h

/-- A blank at the end is the text's own, since no statement ends with one. -/
theorem of_concat (h : Woven statements s own) {t : List Char} {c : Char} (hs : s = t ++ [c])
    (hblank : Text.isBlank c = true) : ∃ own', own = own' ++ [c] ∧ Woven statements t own' := by
  induction h generalizing t with
  | nil => simp at hs
  | @own first statements s own hfirst h ih =>
    cases t with
    | nil =>
      obtain ⟨rfl, rfl⟩ : first = c ∧ s = [] := by simpa using hs
      obtain ⟨rfl, rfl⟩ := h.of_nil rfl
      exact ⟨[], rfl, .nil⟩
    | cons c' t =>
      obtain ⟨rfl, hrest⟩ : first = c' ∧ s = t ++ [c] := by simpa using hs
      obtain ⟨own', rfl, ht⟩ := ih hrest
      exact ⟨first :: own', rfl, .own hfirst ht⟩
  | @statement statement statements s own hstatement h ih =>
    rcases List.eq_nil_or_concat s with rfl | ⟨s, last, rfl⟩
    · have hlast : some ';' = some c := by
        rw [← hstatement.terminated, ← List.append_nil statement, hs, List.getLast?_concat]
      obtain rfl := Option.some.inj hlast
      exact absurd hblank (by decide)
    · obtain ⟨rfl, rfl⟩ : statement ++ s = t ∧ last = c := by
        rw [List.concat_eq_append, ← List.append_assoc] at hs
        simpa using List.append_inj' hs rfl
      obtain ⟨own', rfl, ht⟩ := ih List.concat_eq_append
      exact ⟨own', rfl, .statement hstatement ht⟩

/-- Blanks may be taken off the end. -/
theorem trimEnd (h : Woven statements s own) : ∃ own',
    Text.dropBlanks own' = Text.dropBlanks own ∧ Woven statements (Text.trimEnd s) own' := by
  induction s using List.reverseRecOn generalizing own with
  | nil => exact ⟨own, rfl, h⟩
  | append_singleton s c ih =>
    rw [Text.trimEnd_concat]
    split
    next hblank =>
      obtain ⟨before, rfl, hs⟩ := h.of_concat rfl hblank
      obtain ⟨own', hown, htrim⟩ := ih hs
      exact ⟨own', by rw [hown, Text.dropBlanks_concat_of_isBlank hblank], htrim⟩
    next => exact ⟨own, rfl, h⟩

/-- Statements start and end in the way of statements. -/
theorem isTerminated (h : Woven statements s own) :
    ∀ statement ∈ statements, IsTerminated statement := by
  induction h with
  | nil => simp
  | own _ _ ih => exact ih
  | statement hstatement _ ih => exact List.forall_mem_cons.2 ⟨hstatement, ih⟩

/-- The first occurrence of the first statement is that statement. -/
theorem exists_cut (h : Woven statements s own) {rest : List (List Char)}
    (hstatements : statements = statement :: rest) : ∃ before behind,
      Text.cut? statement s = some (before, behind) ∧ Woven rest (before ++ behind) own := by
  induction h with
  | nil => cases hstatements
  | @own c statements s own hc h ih =>
    subst hstatements
    obtain ⟨before, behind, hcut, hrest⟩ := ih rfl
    obtain ⟨body, rfl, -⟩ := (h.isTerminated statement (List.mem_cons_self ..)).exists_rest
    refine ⟨c :: before, behind, ?_, .own hc hrest⟩
    rw [Text.cut?, if_neg, hcut]
    · rfl
    · rw [List.isPrefixOf_iff_prefix, List.cons_prefix_cons]
      exact fun hprefix => hc hprefix.1.symm
  | @statement statement' statements s own hstatement h ih =>
    obtain ⟨rfl, rfl⟩ := List.cons.inj hstatements
    obtain ⟨body, rfl, -⟩ := id hstatement.exists_rest
    refine ⟨[], s, ?_, h⟩
    rw [List.cons_append, Text.cut?, if_pos]
    · simp
    · rw [List.isPrefixOf_iff_prefix, ← List.cons_append]
      exact List.prefix_append ..

/-- Taking the first statement out leaves the others, and changes nothing but blanks in the text's
own characters. -/
theorem removeStatement (h : Woven (statement :: statements) s own) : ∃ own',
    Text.dropBlanks own' = Text.dropBlanks own ∧
      Woven statements (removeStatement statement s) own' := by
  obtain ⟨before, behind, hcut, hrest⟩ := h.exists_cut rfl
  obtain ⟨own₁, hown₁, hstart⟩ := hrest.trimStart
  obtain ⟨own₂, hown₂, hend⟩ := hstart.trimEnd
  refine ⟨Text.dropLineBreaks own₂, ?_, ?_⟩
  · rw [Text.dropBlanks_dropLineBreaks, hown₂, hown₁]
  · have hreplace : Text.replaceFirst statement [] s = before ++ behind := by
      simp [Text.replaceFirst, hcut]
    have hcontains : Text.contains statement s = true := by simp [Text.contains, hcut]
    rw [Import.removeStatement, if_pos hcontains, hreplace]
    exact hend.dropLineBreaks

end Woven

/-! ## Replacing -/

/-- Where every target is flattened to a text without at signs, replacing the statements of a woven
text gives its own characters and then those texts in order, up to blanks. -/
theorem replaceStatements_woven {f : String → Flattening} {statements : List Statement}
    {texts : List (List Char)} {s own : List Char}
    (htexts : List.Forall₂ (fun statement text =>
      (f statement.target).result = .ok text ∧ '@' ∉ text) statements texts)
    (h : Woven (statements.map (·.text.toList)) s own) : ∃ out,
    (replaceStatements f statements s).result = .ok out ∧ '@' ∉ out ∧
      Text.dropBlanks out = Text.dropBlanks own ++ texts.flatMap Text.dropBlanks := by
  induction htexts generalizing s own with
  | nil =>
    obtain ⟨rfl, hown⟩ := h.eq_own rfl
    exact ⟨s, rfl, hown, by simp⟩
  | @cons statement text statements texts htext _ ih =>
    obtain ⟨own', hown, hremoved⟩ := h.removeStatement
    obtain ⟨out, hout, hmark, hblanks⟩ := ih (hremoved.append htext.2)
    refine ⟨out, ?_, hmark, ?_⟩
    · rw [replaceStatements]
      simp only [htext.1]
      exact hout
    · rw [hblanks, Text.dropBlanks_append, hown, List.append_assoc, List.flatMap_cons]

end StyleBundle.Import
