import StyleBundle.Text.Search

/-!
# Where text is found

What a text starts with is found at its start. What starts with a character is found at the first
place of that character where it stands there, and nowhere before.
-/

namespace StyleBundle.Text

/-- What a text starts with is found at once. -/
theorem replaceFirst_append (part rest : List Char) : replaceFirst part [] (part ++ rest) = rest := by
  cases hs : part ++ rest with
  | nil =>
    obtain ⟨rfl, rfl⟩ := List.append_eq_nil_iff.1 hs
    rfl
  | cons c cs =>
    have hstarts : part.isPrefixOf (c :: cs) = true :=
      List.isPrefixOf_iff_prefix.2 ⟨rest, hs⟩
    rw [replaceFirst, cut?, if_pos hstarts, ← hs]
    simp

/-- What does not occur is not replaced. -/
theorem replaceFirst_of_contains_eq_false {old new s : List Char} (h : contains old s = false) :
    replaceFirst old new s = s := by
  rw [contains, Option.isSome_eq_false_iff, Option.isNone_iff_eq_none] at h
  rw [replaceFirst, h]

/-- What starts with a character is found behind a gap without it. -/
theorem cut?_append_cons {c : Char} {gap : List Char} (h : c ∉ gap) (body behind : List Char) :
    cut? (c :: body) (gap ++ (c :: body ++ behind)) = some (gap, behind) := by
  induction gap with
  | nil => simp [cut?]
  | cons d gap ih =>
    simp only [List.mem_cons, not_or] at h
    rw [List.cons_append, cut?, if_neg, ih h.2]
    · rfl
    · rw [List.isPrefixOf_iff_prefix, List.cons_append, List.cons_prefix_cons]
      exact fun hstarts => h.1 hstarts.1

/-- What does not hold a character ends before its first place. -/
theorem prefix_of_append_eq {c : Char} {s behind front rest : List Char} (h : c ∉ s)
    (heq : s ++ behind = front ++ c :: rest) : s <+: front := by
  rcases List.append_eq_append_iff.1 heq with ⟨more, hmore, -⟩ | ⟨more, hmore, hrest⟩
  · exact ⟨more, hmore.symm⟩
  · cases more with
    | nil => exact ⟨[], by simpa using hmore⟩
    | cons d more =>
      obtain ⟨rfl, -⟩ := List.cons.inj (hrest.trans (List.cons_append ..))
      exact absurd (by simp [hmore]) h

/-- A place of a character is the first one or stands behind it. -/
theorem eq_or_exists_of_append_cons {c : Char} {gap rest before rest' : List Char} (h : c ∉ gap)
    (heq : gap ++ c :: rest = before ++ c :: rest') :
    before = gap ∧ rest = rest' ∨ ∃ more, before = gap ++ c :: more ∧ rest = more ++ c :: rest' := by
  obtain ⟨more, rfl⟩ := prefix_of_append_eq h heq
  have hrest : c :: rest = more ++ c :: rest' := by simpa using heq
  cases more with
  | nil => exact .inl ⟨List.append_nil _, (List.cons.inj hrest).2⟩
  | cons d more =>
    obtain ⟨rfl, htails⟩ := List.cons.inj hrest
    exact .inr ⟨more, rfl, htails⟩

/-- The front of a text that keeps to a class is part of the longest such front. -/
theorem prefix_takeWhile {p : Char → Bool} {s t : List Char} (h : s <+: t) (hs : ∀ c ∈ s, p c = true) :
    s <+: t.takeWhile p := by
  obtain ⟨rest, rfl⟩ := h
  rw [List.takeWhile_append_of_pos hs]
  exact List.prefix_append ..

end StyleBundle.Text
