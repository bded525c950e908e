import StyleBundle.Import.Override
import StyleBundle.Proofs.Import.Target

/-!
# What overrides make of a path

An override takes the place of its own last extension, and the first one in a list that leads to a
file wins. It never applies to what it has made; another override with the same last extension may,
and then the path is remapped once more. Each time the path gets longer.
-/

namespace StyleBundle.Import

/-- An override applies to a path: the path is a stem with the part of the override from its last dot
on, and it does not end in the whole override. -/
structure Applies (override path stem : String) : Prop where
  /-- The path ends in the part of the override from its last dot on. -/
  exists_ending : ∃ inner ending, override = inner ++ "." ++ ending ∧ '.' ∉ ending.toList ∧
    path = stem ++ "." ++ ending
  /-- The path does not end in the override. -/
  ne_append : ∀ front, path ≠ front ++ override

/-- An override puts a file in the place of a path. -/
def Replaces (d : Disk) (override path found : String) : Prop :=
  ∃ stem, Applies override path stem ∧ found = stem ++ override ∧ d.isFile found = true

variable {d : Disk} {override other path found again stem inner ending : String}

/-! ## One override -/

/-- The last extension of an override starts at its last dot. -/
theorem lastExtension_append (inner : String) (h : '.' ∉ ending.toList) :
    lastExtension (inner ++ "." ++ ending) = "." ++ ending := by
  have htext : (inner ++ "." ++ ending).toList = inner.toList ++ '.' :: ending.toList := by simp
  rw [lastExtension, htext, Text.lastPiece_append h, String.ofList_toList]

/-- An override is compared with a dot in it. -/
theorem dot_mem_of_mem_dotted {overrides : List String} :
    ∀ override ∈ overrides.map dotted, '.' ∈ override.toList := by
  intro override hmem
  obtain ⟨plain, -, rfl⟩ := List.mem_map.1 hmem
  rw [dotted]
  split
  next hhead => exact List.mem_of_head? hhead
  next => simp

/-- What holds a dot has a last extension. -/
theorem exists_eq_append_of_dot_mem (h : '.' ∈ override.toList) :
    ∃ inner ending, override = inner ++ "." ++ ending ∧ '.' ∉ ending.toList := by
  obtain ⟨ending, inner, hsplit, hending⟩ := List.eq_append_cons_of_mem (List.mem_reverse.2 h)
  refine ⟨String.ofList inner.reverse, String.ofList ending.reverse, ?_, by simpa using hending⟩
  have hreversed := congrArg List.reverse hsplit
  rw [List.reverse_reverse] at hreversed
  simp [← String.toList_inj, hreversed]

/-- Whether an override applies is told by its last extension and by all of it. -/
theorem applies_iff (h : '.' ∈ override.toList) :
    Applies override path stem ↔
      dropEnd? (lastExtension override) path = some stem ∧ dropEnd? override path = none := by
  have hnone : dropEnd? override path = none ↔ ∀ front, path ≠ front ++ override := by
    rw [Option.eq_none_iff_forall_ne_some]
    exact forall_congr' fun front => not_congr dropEnd?_eq_some_iff
  obtain ⟨inner, ending, hoverride, hending⟩ := exists_eq_append_of_dot_mem h
  rw [hnone, dropEnd?_eq_some_iff, hoverride, lastExtension_append inner hending]
  constructor
  · rintro ⟨⟨inner', ending', hsame, hending', rfl⟩, hne⟩
    have hext := congrArg lastExtension hsame
    rw [lastExtension_append inner hending, lastExtension_append inner' hending'] at hext
    exact ⟨by rw [hext, String.append_assoc], hne⟩
  · rintro ⟨rfl, hne⟩
    exact ⟨⟨inner, ending, rfl, hending, (String.append_assoc ..).symm⟩, hne⟩

/-- One override gives the file that it puts in the place of a path. -/
theorem overriddenBy?_eq_some_iff (h : '.' ∈ override.toList) :
    overriddenBy? d path override = some found ↔ Replaces d override path found := by
  simp only [overriddenBy?, Replaces, applies_iff h]
  cases dropEnd? (lastExtension override) path with
  | none => simp
  | some stem =>
    cases dropEnd? override path with
    | some front => simp
    | none =>
      simp only [Option.isSome_none, Bool.false_eq_true, if_false, Option.some.injEq, and_true,
        exists_eq_left']
      constructor
      · intro hfound
        split at hfound
        next hfile =>
          obtain rfl := Option.some.inj hfound
          exact ⟨rfl, hfile⟩
        next => cases hfound
      · rintro ⟨rfl, hfile⟩
        rw [if_pos hfile]

/-- One override gives nothing exactly if it puts no file in the place of a path. -/
theorem overriddenBy?_eq_none_iff (h : '.' ∈ override.toList) :
    overriddenBy? d path override = none ↔ ∀ found, ¬ Replaces d override path found := by
  rw [Option.eq_none_iff_forall_ne_some]
  exact forall_congr' fun found => not_congr (overriddenBy?_eq_some_iff h)

/-! ## What is remapped again -/

/-- An override never applies to what it has made. -/
theorem Replaces.not_again (h : Replaces d override path found) :
    ¬ Replaces d override found again := by
  obtain ⟨stem, -, rfl, -⟩ := h
  rintro ⟨stem', happlies, -⟩
  exact happlies.ne_append stem rfl

/-- An override that applies to what another one has made has the same last extension. -/
theorem Replaces.lastExtension_eq (h : Replaces d override path found)
    (hagain : Replaces d other found again) : lastExtension other = lastExtension override := by
  obtain ⟨stem, ⟨⟨inner, ending, rfl, hending, -⟩, -⟩, rfl, -⟩ := h
  obtain ⟨stem', ⟨⟨inner', ending', rfl, hending', hfound⟩, -⟩, -⟩ := hagain
  have hsame : stem' ++ "." ++ ending' = stem ++ inner ++ "." ++ ending := by
    rw [← hfound]
    simp only [String.append_assoc]
  have hext := congrArg lastExtension hsame
  rw [lastExtension_append stem' hending', lastExtension_append (stem ++ inner) hending] at hext
  rw [lastExtension_append inner' hending', lastExtension_append inner hending, hext]

/-- A path gets longer when it is remapped, so that remapping never leads back to it. -/
theorem Replaces.length_lt (h : Replaces d override path found) :
    path.toList.length < found.toList.length := by
  obtain ⟨stem, ⟨⟨inner, ending, rfl, -, rfl⟩, hne⟩, rfl, -⟩ := h
  have hinner : inner ≠ "" := by
    rintro rfl
    exact hne stem (by simp only [String.empty_append, String.append_assoc])
  have hlength := List.length_pos_iff.2 (mt String.toList_eq_nil_iff.1 hinner)
  simp only [String.toList_append, List.length_append]
  omega

/-! ## A list of overrides -/

/-- The first override of a list that puts a file in the place of a path wins. -/
theorem overridden?_eq_some_iff {overrides : List String}
    (hdot : ∀ override ∈ overrides, '.' ∈ override.toList) :
    overridden? d overrides path = some found ↔
      ∃ before override after, overrides = before ++ override :: after ∧
        Replaces d override path found ∧
        ∀ other ∈ before, ∀ missed, ¬ Replaces d other path missed := by
  rw [overridden?, List.findSome?_eq_some_iff]
  constructor
  · rintro ⟨before, override, after, rfl, hfound, hbefore⟩
    refine ⟨before, override, after, rfl, ?_, ?_⟩
    · exact (overriddenBy?_eq_some_iff (hdot override (by simp))).1 hfound
    · intro other hother
      exact (overriddenBy?_eq_none_iff (hdot other (by simp [hother]))).1 (hbefore other hother)
  · rintro ⟨before, override, after, rfl, hfound, hbefore⟩
    refine ⟨before, override, after, rfl, ?_, ?_⟩
    · exact (overriddenBy?_eq_some_iff (hdot override (by simp))).2 hfound
    · intro other hother
      exact (overriddenBy?_eq_none_iff (hdot other (by simp [hother]))).2 (hbefore other hother)

/-- A path stays if no override of the list puts a file in its place. -/
theorem overridden?_eq_none_iff {overrides : List String}
    (hdot : ∀ override ∈ overrides, '.' ∈ override.toList) :
    overridden? d overrides path = none ↔
      ∀ override ∈ overrides, ∀ missed, ¬ Replaces d override path missed := by
  rw [overridden?, List.findSome?_eq_none_iff]
  exact forall₂_congr fun override hmem => overriddenBy?_eq_none_iff (hdot override hmem)

/-- The first override of a list that puts a file in the place of a path wins, and a path stays if
none does. A remapped path is always longer, and it is remapped again only by another override with
the same last extension. -/
theorem overridden?_of_dotted (d : Disk) (overrides : List String) (path : String) :
    (∀ found, overridden? d (overrides.map dotted) path = some found ↔
      ∃ before override after, overrides.map dotted = before ++ override :: after ∧
        Replaces d override path found ∧
        ∀ other ∈ before, ∀ missed, ¬ Replaces d other path missed) ∧
    (overridden? d (overrides.map dotted) path = none ↔
      ∀ override ∈ overrides.map dotted, ∀ missed, ¬ Replaces d override path missed) ∧
    ∀ found, overridden? d (overrides.map dotted) path = some found →
      path.toList.length < found.toList.length ∧
      ∀ again, overridden? d (overrides.map dotted) found = some again →
        ∃ override ∈ overrides.map dotted, ∃ other ∈ overrides.map dotted,
          Replaces d override path found ∧ Replaces d other found again ∧ other ≠ override ∧
          lastExtension other = lastExtension override := by
  have hdot : ∀ override ∈ overrides.map dotted, '.' ∈ override.toList := dot_mem_of_mem_dotted
  refine ⟨fun found => overridden?_eq_some_iff hdot, overridden?_eq_none_iff hdot, ?_⟩
  intro found hfound
  obtain ⟨before, override, after, hlist, hfirst, -⟩ := (overridden?_eq_some_iff hdot).1 hfound
  refine ⟨hfirst.length_lt, fun again hagain => ?_⟩
  obtain ⟨before', other, after', hlist', hsecond, -⟩ := (overridden?_eq_some_iff hdot).1 hagain
  refine ⟨override, by simp [hlist], other, by simp [hlist'], hfirst, hsecond, ?_,
    hfirst.lastExtension_eq hsecond⟩
  rintro rfl
  exact hfirst.not_again hsecond

/-- A disk with a file for one override and one for two of them. -/
def layered : Disk where
  nodes := [([], .directory ⟨0⟩), (["s"], .directory ⟨0⟩),
    (["s", "theme.dark.light.scss"], .file [] ⟨0⟩), (["s", "theme.dark.scss"], .file [] ⟨0⟩)]
  home := ["s"]
  clock := ⟨1⟩

/-- A path that is remapped by one override of a list is remapped again by another one. -/
theorem exists_second_remap :
    overridden? layered ([".dark.scss", ".light.scss"].map dotted) "/s/theme.scss" =
        some "/s/theme.dark.scss" ∧
      overridden? layered ([".dark.scss", ".light.scss"].map dotted) "/s/theme.dark.scss" =
        some "/s/theme.dark.light.scss" := by
  decide +kernel

end StyleBundle.Import
