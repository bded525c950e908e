import StyleBundle.Proofs.Path.Normalise

/-!
# Tidy paths below each other

A tidy path is its root and its names. A name that is put behind a path is the last of its names,
and the parent takes it off again. The way of a path is what its names lead through, one place after
another.
-/

namespace StyleBundle.Path

variable {name base path : String}

/-- A segment that stands in a tidy path: a name or a step up. -/
def IsStep (segment : String) : Prop := isIdle segment = false ∧ '/' ∉ segment.toList

theorem IsName.isStep (h : IsName name) : IsStep name := ⟨h.not_isIdle, h.2.2.2⟩

theorem IsStep.ne_empty {segment : String} (h : IsStep segment) : segment ≠ "" := by
  rintro rfl
  exact absurd h.1 (by simp [isIdle])

/-- The names of a path are steps. -/
theorem isStep_of_mem_names {segment : String} (h : segment ∈ names path) : IsStep segment := by
  obtain ⟨hsegment, hidle⟩ := List.mem_filter.1 h
  exact ⟨by simpa using hidle, not_mem_of_mem_segments hsegment⟩

/-- A path put together has the names that it is put together from. -/
theorem names_assemble (base : String) {steps : List String} (h : ∀ step ∈ steps, IsStep step) :
    names (assemble (root base) steps) = steps := by
  obtain ⟨idle, hidle, hsegments⟩ :=
    exists_segments_assemble (root_cases base) fun step hstep => (h step hstep).2
  have hfront : idle.filter (!isIdle ·) = [] := by
    rw [List.filter_eq_nil_iff]
    intro segment hsegment
    simp [hidle segment hsegment]
  have hsteps : steps.filter (!isIdle ·) = steps := by
    rw [List.filter_eq_self]
    intro step hstep
    simp [(h step hstep).1]
  rw [names, hsegments, List.filter_append, hfront, hsteps, List.nil_append]

/-- A path put together has the root that it is put together from. -/
theorem root_assemble (base : String) {steps : List String} (h : ∀ step ∈ steps, IsStep step) :
    root (assemble (root base) steps) = root base := by
  have hhead := head?_ofSegments fun step hstep => ⟨(h step hstep).ne_empty, (h step hstep).2⟩
  by_cases hnothing : root base = "" ∧ steps = []
  · rw [assemble, if_pos hnothing, hnothing.1]
    rfl
  · rw [assemble, if_neg hnothing]
    generalize ofSegments steps = tail at hhead
    rcases root_cases base with hr | hr | hr <;> rw [hr, root, String.toList_append] <;>
      cases hcs : tail.toList with
      | nil => simp
      | cons c cs =>
        have hc : c ≠ '/' := by simpa [hcs] using hhead
        simp [hc]

/-- What stands in a path put together, besides slashes and dots, stands in one of its steps. -/
theorem exists_step_of_mem_assemble {steps : List String} (h : ∀ step ∈ steps, IsStep step)
    {c : Char} (hslash : c ≠ '/') (hdot : c ≠ '.') (hc : c ∈ (assemble (root base) steps).toList) :
    ∃ step ∈ steps, c ∈ step.toList := by
  obtain ⟨idle, hidle, hsegments⟩ :=
    exists_segments_assemble (root_cases base) fun step hstep => (h step hstep).2
  obtain ⟨segment, hsegment, hc⟩ := (mem_segments_of_mem hc).resolve_left hslash
  rw [hsegments] at hsegment
  rcases List.mem_append.1 hsegment with hsegment | hstep
  · have hempty := hidle segment hsegment
    simp only [isIdle, Bool.or_eq_true, beq_iff_eq] at hempty
    rcases hempty with rfl | rfl
    · simp at hc
    · simp [hdot] at hc
  · exact ⟨segment, hstep, hc⟩

/-- A path starts at the root exactly if slashes mark it. -/
theorem isAbsolute_iff_root : isAbsolute path = true ↔ root path ≠ "" := by
  constructor
  · intro h
    rcases root_of_isAbsolute h with hroot | hroot <;> simp [hroot]
  · intro h
    unfold root at h
    split at h
    next hpath => simp [isAbsolute, hpath]
    next hpath => simp [isAbsolute, hpath]
    next hpath => simp [isAbsolute, hpath]
    next => exact absurd rfl h

/-- One more name is joined behind a slash. -/
theorem ofSegments_concat {above : List String} (hne : above ≠ []) (name : String) :
    ofSegments (above ++ [name]) = ofSegments above ++ "/" ++ name := by
  have hmap : above.map String.toList ≠ [] := by simpa using hne
  simp [← String.toList_inj, ofSegments, Text.join_concat hmap]

/-! ## Children and parents -/

/-- A name is put behind the names of a path. -/
theorem child_of_isName (base : String) (hname : IsName name) :
    child base name = assemble (root base) (names base ++ [name]) := by
  have hnames : names name = [name] := by
    simp [names, segments_of_isName hname, hname.not_isIdle]
  have hrelative := isAbsolute_of_not_mem hname.2.2.2
  rw [child, if_neg (by simp [hrelative]), hnames]

theorem isStep_of_mem_names_append (hname : IsName name) :
    ∀ step ∈ names base ++ [name], IsStep step := by
  intro step hstep
  rcases List.mem_append.1 hstep with hstep | hstep
  · exact isStep_of_mem_names hstep
  · rw [List.mem_singleton.1 hstep]
    exact hname.isStep

theorem names_child (base : String) (hname : IsName name) :
    names (child base name) = names base ++ [name] := by
  rw [child_of_isName base hname, names_assemble base (isStep_of_mem_names_append hname)]

theorem root_child (base : String) (hname : IsName name) : root (child base name) = root base := by
  rw [child_of_isName base hname, root_assemble base (isStep_of_mem_names_append hname)]

/-- The parent takes off what is put behind a path. -/
theorem parent_child (base : String) (hname : IsName name) :
    parent (child base name) = tidy base := by
  rw [parent, names_child base hname, root_child base hname, List.dropLast_concat, tidy]

/-- A path has the same names when it is tidied. -/
theorem names_tidy (path : String) : names (tidy path) = names path :=
  names_assemble path fun _ hstep => isStep_of_mem_names hstep

theorem root_tidy (path : String) : root (tidy path) = root path :=
  root_assemble path fun _ hstep => isStep_of_mem_names hstep

theorem tidy_tidy (path : String) : tidy (tidy path) = tidy path := by
  rw [tidy, root_tidy, names_tidy, tidy]

/-- A name is put behind the tidied path. -/
theorem child_tidy (base : String) (hname : IsName name) :
    child (tidy base) name = child base name := by
  rw [child_of_isName _ hname, child_of_isName _ hname, root_tidy, names_tidy]

/-- A tidy path is not empty. -/
theorem ne_empty_of_tidy (h : tidy path = path) : path ≠ "" := by
  rintro rfl
  exact absurd h (by decide)

/-- A path below another one is tidy. -/
theorem tidy_child (base : String) (hname : IsName name) :
    tidy (child base name) = child base name := by
  rw [tidy, names_child base hname, root_child base hname, child_of_isName base hname]

/-- The parent of a path has all its names but the last. -/
theorem names_parent (path : String) : names (parent path) = (names path).dropLast :=
  names_assemble path fun _ hstep => isStep_of_mem_names (List.dropLast_subset _ hstep)

theorem root_parent (path : String) : root (parent path) = root path :=
  root_assemble path fun _ hstep => isStep_of_mem_names (List.dropLast_subset _ hstep)

/-- The parent of a path is tidy. -/
theorem tidy_parent (path : String) : tidy (parent path) = parent path := by
  rw [tidy, root_parent, names_parent, parent]

/-- What stands in the parent of a path, besides slashes and dots, stands in the path. -/
theorem mem_of_mem_parent {c : Char} (hslash : c ≠ '/') (hdot : c ≠ '.')
    (hc : c ∈ (parent path).toList) : c ∈ path.toList := by
  obtain ⟨step, hstep, hc⟩ := exists_step_of_mem_assemble
    (fun _ hstep => isStep_of_mem_names (List.dropLast_subset _ hstep)) hslash hdot hc
  exact mem_of_mem_segments (List.mem_filter.1 (List.dropLast_subset _ hstep)).1 hc

/-- What stands in a path with a name behind it, besides slashes and dots, stands in one of the two.
-/
theorem mem_or_mem_of_mem_child {c : Char} (hname : IsName name) (hslash : c ≠ '/') (hdot : c ≠ '.')
    (hc : c ∈ (child base name).toList) : c ∈ base.toList ∨ c ∈ name.toList := by
  rw [child_of_isName base hname] at hc
  obtain ⟨step, hstep, hc⟩ :=
    exists_step_of_mem_assemble (isStep_of_mem_names_append hname) hslash hdot hc
  rcases List.mem_append.1 hstep with hstep | hstep
  · exact .inl (mem_of_mem_segments (List.mem_filter.1 hstep).1 hc)
  · exact .inr (List.mem_singleton.1 hstep ▸ hc)

/-- What stands in a path, besides slashes and dots, stands in it with a name behind it. -/
theorem mem_child_of_mem {c : Char} (hname : IsName name) (hslash : c ≠ '/') (hdot : c ≠ '.')
    (hc : c ∈ base.toList) : c ∈ (child base name).toList := by
  obtain ⟨segment, hsegment, hc⟩ := (mem_segments_of_mem hc).resolve_left hslash
  have hstep : segment ∈ names base := by
    refine List.mem_filter.2 ⟨hsegment, ?_⟩
    rw [Bool.not_eq_true', Bool.eq_false_iff]
    intro hidle
    simp only [isIdle, Bool.or_eq_true, beq_iff_eq] at hidle
    rcases hidle with rfl | rfl
    · simp at hc
    · simp [hdot] at hc
  have hchild : segment ∈ names (child base name) := by
    rw [names_child base hname]
    exact List.mem_append_left _ hstep
  exact mem_of_mem_segments (List.mem_filter.1 hchild).1 hc

/-! ## The way of a path -/

/-- The places that segments lead through from a given one, which is the first of them. -/
def way (here : List String) : List String → List (List String)
  | [] => [here]
  | segment :: rest => here :: way (descend here segment) rest

theorem mem_way_self (here segments : List String) : here ∈ way here segments := by
  cases segments <;> simp [way]

/-- The last place of a way is where the segments lead. -/
theorem foldl_mem_way (here segments : List String) :
    segments.foldl descend here ∈ way here segments := by
  induction segments generalizing here with
  | nil => simp [way]
  | cons segment rest ih => exact List.mem_cons_of_mem _ (ih _)

/-- One more segment leads to one more place. -/
theorem way_append_singleton (here segments : List String) (segment : String) :
    way here (segments ++ [segment]) =
      way here segments ++ [descend (segments.foldl descend here) segment] := by
  induction segments generalizing here with
  | nil => rfl
  | cons first rest ih =>
    rw [List.cons_append, way, ih, way, List.foldl_cons]
    rfl

/-- The way of segments goes on from that of all but the last. -/
theorem mem_way_of_dropLast {here segments place : List String}
    (h : place ∈ way here segments.dropLast) : place ∈ way here segments := by
  rcases List.eq_nil_or_concat segments with rfl | ⟨front, last, rfl⟩
  · exact h
  · rw [List.concat_eq_append, List.dropLast_concat] at h
    rw [List.concat_eq_append, way_append_singleton]
    exact List.mem_append_left _ h

/-- Idle segments lead to no other place. -/
theorem mem_way_filter {here segments : List String} {place : List String} :
    place ∈ way here (segments.filter (!isIdle ·)) ↔ place ∈ way here segments := by
  induction segments generalizing here with
  | nil => rfl
  | cons segment rest ih =>
    cases hidle : isIdle segment with
    | false =>
      rw [List.filter_cons_of_pos (by simp [hidle]), way, way, List.mem_cons, List.mem_cons, ih]
    | true =>
      rw [List.filter_cons_of_neg (by simp [hidle]), way, descend_of_isIdle hidle, List.mem_cons,
        ih]
      constructor
      · exact .inr
      · rintro (rfl | hplace)
        · exact mem_way_self place rest
        · exact hplace

/-- Idle segments lead nowhere. -/
theorem foldl_descend_of_isIdle {segments : List String}
    (h : ∀ segment ∈ segments, isIdle segment = true) (here : List String) :
    segments.foldl descend here = here := by
  induction segments with
  | nil => rfl
  | cons segment rest ih =>
    rw [List.foldl_cons, descend_of_isIdle (h segment (List.mem_cons_self ..)),
      ih fun s hs => h s (List.mem_cons_of_mem _ hs)]

/-- Idle segments lead nowhere, wherever they stand between others. -/
theorem foldl_descend_filter (here segments : List String) :
    (segments.filter (!isIdle ·)).foldl descend here = segments.foldl descend here := by
  rw [List.foldl_filter]
  congr 1
  funext here segment
  cases hidle : isIdle segment with
  | false => simp
  | true => simp [descend_of_isIdle hidle]

end StyleBundle.Path
