import StyleBundle.Dependency.Walk

/-!
# Walks within a bound

A walk that may go down only so far takes the same steps as one that may go down as far as it likes,
until it comes to a file that too many imports lead to. So it gives the same list, or it ends there.
-/

namespace StyleBundle.Dependency

variable {d : Disk} {s : Search} {entry : String}

theorem map_snd_atDepth (depth : Nat) (references : List Reference) :
    (atDepth depth references).map Prod.snd = references := by
  simp [atDepth, Function.comp_def]

/-- A walk gives what it gives without a bound, or it is bounded and ends at a file that lies too
deep. -/
theorem walkWithin_eq_or [Limits] (bound : Option Nat) (asked : Nat)
    (pending : List (Nat × Reference)) (found : List String) :
    walkWithin bound d s entry asked pending found =
        walk d s entry asked (pending.map Prod.snd) found ∨
      (∃ most, bound = some most) ∧
        walkWithin bound d s entry asked pending found = .error (.raised tooDeepMessage) := by
  fun_induction walkWithin bound d s entry asked pending found with
  | case1 => exact .inl (by rw [List.map_nil, walk])
  | case2 asked found depth r rest failure hfails =>
    exact .inl (by rw [List.map_cons, walk, hfails])
  | case3 asked found depth r rest hnowhere ih =>
    rw [List.map_cons, walk, hnowhere]
    exact ih
  | case4 asked found depth r rest path hpath hnew _ text htext hdepth ih =>
    rw [List.map_append, map_snd_atDepth] at ih
    rw [List.map_cons, walk, hpath]
    simp only [dif_pos hnew, htext]
    exact ih
  | case5 asked found depth r rest path hpath hnew _ text htext hdepth =>
    refine .inr ⟨?_, rfl⟩
    cases bound with
    | none => exact absurd (within_none _) hdepth
    | some most => exact ⟨most, rfl⟩
  | case6 asked found depth r rest path hpath hnew _ cause refused hrefused ih =>
    rw [List.map_cons, walk, hpath]
    simp only [dif_pos hnew, hrefused]
    exact ih
  | case7 asked found depth r rest path hpath hnew _ failure hother hfails =>
    left
    rw [List.map_cons, walk, hpath]
    simp only [dif_pos hnew, hfails]
  | case8 asked found depth r rest path hpath hold ih =>
    rw [List.map_cons, walk, hpath]
    simp only [dif_neg hold]
    exact ih

/-- The dependencies of a text are what the walk without a bound finds, or there is a bound and they
lie too deep. -/
theorem dependencies_eq_or [Limits] (d : Disk) (s : Search) (entry text : String) :
    dependencies d s entry text = walk d s entry 0 (references entry text) [] ∨
      (∃ most, Limits.importDepth = some most) ∧
        dependencies d s entry text = .error (.raised tooDeepMessage) := by
  have h : dependencies d s entry text = _ ∨ _ :=
    walkWithin_eq_or Limits.importDepth 0 (atDepth 0 (references entry text)) []
  rwa [map_snd_atDepth] at h

/-- Where nothing is bounded, the dependencies of a text are what the walk finds. -/
theorem dependencies_eq_walk (d : Disk) (s : Search) (entry text : String) :
    dependencies d s entry text = walk d s entry 0 (references entry text) [] := by
  refine (dependencies_eq_or d s entry text).resolve_right ?_
  rintro ⟨⟨most, hmost⟩, -⟩
  cases hmost

end StyleBundle.Dependency
