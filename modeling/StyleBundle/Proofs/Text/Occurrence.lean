import Mathlib.Data.List.Infix
import StyleBundle.Text.Search

/-!
# First occurrences

Cutting finds the first occurrence of a piece of text, and fails only where there is none. Texts
that cannot overlap are apart; two texts without a common character are.
-/

namespace StyleBundle.Text

variable {part s before behind : List Char}

/-- The part stands between what is before it and what is behind it, and nowhere earlier. -/
def IsFirst (part s before behind : List Char) : Prop :=
  s = before ++ part ++ behind ∧
    ∀ earlier rest, s = earlier ++ part ++ rest → before.length ≤ earlier.length

/-- There is one first occurrence at most. -/
theorem IsFirst.unique {before' behind' : List Char} (h : IsFirst part s before behind)
    (h' : IsFirst part s before' behind') : before = before' ∧ behind = behind' := by
  have hlength : before.length = before'.length :=
    Nat.le_antisymm (h.2 _ _ h'.1) (h'.2 _ _ h.1)
  have hsame : before ++ part ++ behind = before' ++ part ++ behind' := h.1.symm.trans h'.1
  rw [List.append_assoc, List.append_assoc] at hsame
  obtain ⟨hbefore, hrest⟩ := List.append_inj hsame hlength
  exact ⟨hbefore, List.append_cancel_left hrest⟩

/-- A cut is made at the first occurrence. -/
theorem isFirst_of_cut? (h : cut? part s = some (before, behind)) :
    IsFirst part s before behind := by
  refine ⟨eq_append_of_cut? h, ?_⟩
  induction s generalizing before behind with
  | nil =>
    intro earlier rest _
    have hnil := eq_append_of_cut? h
    simp only [List.nil_eq, List.append_eq_nil_iff] at hnil
    simp [hnil.1.1]
  | cons c s ih =>
    intro earlier rest heq
    rw [cut?] at h
    split at h
    next =>
      obtain ⟨rfl, -⟩ : [] = before ∧ _ := by simpa using h
      exact Nat.zero_le _
    next hnot =>
      obtain ⟨⟨front, tail⟩, hcut, hpair⟩ := Option.map_eq_some_iff.1 h
      obtain ⟨rfl, rfl⟩ : c :: front = before ∧ tail = behind := by simpa using hpair
      cases earlier with
      | nil =>
        refine absurd (List.isPrefixOf_iff_prefix.2 ⟨rest, ?_⟩) hnot
        rw [heq, List.nil_append]
      | cons d earlier =>
        have hrest : s = earlier ++ part ++ rest := (List.cons.inj heq).2
        exact Nat.succ_le_succ (ih hcut earlier rest hrest)

/-- What occurs is cut. -/
theorem exists_cut?_append (part before behind : List Char) :
    ∃ found, cut? part (before ++ part ++ behind) = some found := by
  induction before with
  | nil =>
    cases hs : part ++ behind with
    | nil =>
      obtain ⟨rfl, rfl⟩ := List.append_eq_nil_iff.1 hs
      exact ⟨([], []), rfl⟩
    | cons c rest =>
      have hprefix : part.isPrefixOf (c :: rest) = true :=
        List.isPrefixOf_iff_prefix.2 ⟨behind, hs⟩
      rw [List.nil_append, hs, cut?, if_pos hprefix]
      exact ⟨_, rfl⟩
  | cons c before ih =>
    obtain ⟨found, hfound⟩ := ih
    rw [List.cons_append, List.cons_append, cut?]
    split
    next => exact ⟨_, rfl⟩
    next => exact ⟨_, by rw [hfound, Option.map_some]⟩

/-- Cutting finds the first occurrence. -/
theorem cut?_eq_some_iff : cut? part s = some (before, behind) ↔ IsFirst part s before behind := by
  constructor
  · exact isFirst_of_cut?
  · intro h
    obtain ⟨⟨before', behind'⟩, hcut⟩ := exists_cut?_append part before behind
    rw [← h.1] at hcut
    obtain ⟨rfl, rfl⟩ := h.unique (isFirst_of_cut? hcut)
    exact hcut

/-- Cutting fails exactly where there is nothing to be found. -/
theorem cut?_eq_none_iff : cut? part s = none ↔ ¬ part <:+: s := by
  constructor
  · rintro h ⟨before, behind, rfl⟩
    obtain ⟨found, hfound⟩ := exists_cut?_append part before behind
    rw [h] at hfound
    cases hfound
  · intro h
    cases hcut : cut? part s with
    | none => rfl
    | some found => exact absurd ⟨found.1, found.2, (eq_append_of_cut? hcut).symm⟩ h

/-- A text contains what stands in it. -/
theorem contains_iff : contains part s = true ↔ part <:+: s := by
  rw [contains, Option.isSome_iff_ne_none, ne_eq, cut?_eq_none_iff, not_not]

/-- What does not occur is not replaced by anything. -/
theorem replaceFirst_of_not_infix {new : List Char} (h : ¬ part <:+: s) :
    replaceFirst part new s = s := by
  rw [replaceFirst, cut?_eq_none_iff.2 h]

/-- What occurs has a first occurrence. -/
theorem exists_isFirst (h : part <:+: s) : ∃ before behind, IsFirst part s before behind := by
  obtain ⟨before, behind, rfl⟩ := h
  obtain ⟨⟨before', behind'⟩, hcut⟩ := exists_cut?_append part before behind
  exact ⟨before', behind', isFirst_of_cut? hcut⟩

/-! ## Texts that are apart -/

/-- Two texts that cannot overlap: neither stands in the other, and no end of one is a start of the
other. -/
structure Apart (s t : List Char) : Prop where
  /-- The first does not stand in the second. -/
  not_infix : ¬ s <:+: t
  /-- The second does not stand in the first. -/
  not_infix' : ¬ t <:+: s
  /-- The first does not end as the second starts. -/
  not_prefix : ∀ common ≠ [], common <:+ s → ¬ common <+: t
  /-- The second does not end as the first starts. -/
  not_prefix' : ∀ common ≠ [], common <:+ t → ¬ common <+: s

theorem Apart.symm {s t : List Char} (h : Apart s t) : Apart t s :=
  ⟨h.not_infix', h.not_infix, h.not_prefix', h.not_prefix⟩

/-- Texts without a common character are apart. -/
theorem apart_of_forall_not_mem {s t : List Char} (hs : s ≠ []) (ht : t ≠ [])
    (h : ∀ c ∈ s, c ∉ t) : Apart s t := by
  have hcommon : ∀ common ≠ [], common ⊆ s → ¬ common ⊆ t := by
    intro common hne hsub hsub'
    obtain ⟨c, cs, rfl⟩ := List.exists_cons_of_ne_nil hne
    exact h c (hsub (List.mem_cons_self ..)) (hsub' (List.mem_cons_self ..))
  constructor
  · exact fun hinfix => hcommon s hs (List.Subset.refl s) hinfix.subset
  · exact fun hinfix => hcommon t ht hinfix.subset (List.Subset.refl t)
  · exact fun common hne hend hstart => hcommon common hne hend.subset hstart.subset
  · exact fun common hne hend hstart => hcommon common hne hstart.subset hend.subset

instance (s t : List Char) : Decidable (Apart s t) :=
  decidable_of_iff
    ((¬ s <:+: t ∧ ¬ t <:+: s) ∧ (∀ common ∈ s.tails, common ≠ [] → ¬ common <+: t) ∧
      ∀ common ∈ t.tails, common ≠ [] → ¬ common <+: s)
    ⟨fun h => ⟨h.1.1, h.1.2, fun c hne hc => h.2.1 c ((List.mem_tails ..).2 hc) hne,
        fun c hne hc => h.2.2 c ((List.mem_tails ..).2 hc) hne⟩,
      fun h => ⟨⟨h.not_infix, h.not_infix'⟩,
        fun c hc hne => h.not_prefix c hne ((List.mem_tails ..).1 hc),
        fun c hc hne => h.not_prefix' c hne ((List.mem_tails ..).1 hc)⟩⟩

end StyleBundle.Text
