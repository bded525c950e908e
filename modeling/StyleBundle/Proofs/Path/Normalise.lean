import StyleBundle.Proofs.Path.Segments

/-!
# Normalised paths

What comes out of normalising is steps up and then names. A name at the end of a path stays there,
whatever stands before it.
-/

namespace StyleBundle.Path

variable {name base path : String}

/-! ## Putting paths together -/

/-- What marks the root of a path is slashes. -/
theorem root_cases (path : String) : root path = "" ∨ root path = "/" ∨ root path = "//" := by
  unfold root
  split <;> simp

/-- A path put together has its segments behind idle ones. -/
theorem exists_segments_assemble {r : String} (hr : r = "" ∨ r = "/" ∨ r = "//")
    {names : List String} (hnames : ∀ name ∈ names, '/' ∉ name.toList) :
    ∃ idle, (∀ segment ∈ idle, isIdle segment = true) ∧
      segments (assemble r names) = idle ++ names := by
  cases names with
  | nil =>
    rcases hr with rfl | rfl | rfl
    · exact ⟨["."], by simp [isIdle], rfl⟩
    · exact ⟨["", ""], by simp [isIdle], rfl⟩
    · exact ⟨["", "", ""], by simp [isIdle], rfl⟩
  | cons first rest =>
    have hsegments := segments_ofSegments (List.cons_ne_nil first rest) hnames
    rw [assemble, if_neg fun h => List.cons_ne_nil _ _ h.2]
    rcases hr with rfl | rfl | rfl
    · exact ⟨[], by simp, by simpa using hsegments⟩
    · exact ⟨[""], by simp [isIdle], by rw [segments_slash, hsegments]; rfl⟩
    · refine ⟨["", ""], by simp [isIdle], ?_⟩
      have hslashes : "//" ++ ofSegments (first :: rest) =
          "/" ++ ("/" ++ ofSegments (first :: rest)) := by
        simp [← String.toList_inj]
      rw [hslashes, segments_slash, segments_slash, hsegments]
      rfl

/-- A name is its own only segment. -/
theorem segments_of_isName (hname : IsName name) : segments name = [name] := by
  simp [segments, Text.split_of_not_mem hname.2.2.2]

/-- A name put behind a path is its last segment. -/
theorem exists_segments_child (base : String) (hname : IsName name) :
    ∃ above, segments (child base name) = above ++ [name] := by
  have hnames : names name = [name] := by
    simp [names, segments_of_isName hname, hname.not_isIdle]
  have hrelative := isAbsolute_of_not_mem hname.2.2.2
  have hslashes : ∀ n ∈ names base ++ [name], '/' ∉ n.toList := by
    intro n hn
    rcases List.mem_append.1 hn with hn | hn
    · exact not_mem_of_mem_segments (List.mem_filter.1 hn).1
    · rw [List.mem_singleton.1 hn]
      exact hname.2.2.2
  obtain ⟨idle, -, hsegments⟩ := exists_segments_assemble (root_cases base) hslashes
  refine ⟨idle ++ names base, ?_⟩
  rw [child, if_neg (by simp [hrelative]), hnames, hsegments, List.append_assoc]

/-- What is joined behind a path is the end of its segments. -/
theorem exists_segments_join (base path : String) :
    ∃ above, segments (join base path) = above ++ segments path := by
  unfold join
  split
  next => exact ⟨[], rfl⟩
  next =>
    split
    next h =>
      rcases h with rfl | h
      · exact ⟨[], by simp⟩
      · obtain ⟨front, hfront⟩ := List.getLast?_eq_some_iff.1 h
        obtain rfl : base = String.ofList front ++ "/" := by simp [← String.toList_inj, hfront]
        exact ⟨_, segments_append_slash _ _⟩
    next => exact ⟨_, segments_append_slash _ _⟩

/-! ## Normalising -/

/-- One step of normalising keeps steps up below names on the stack. -/
theorem exists_ups_normaliseStep (absolute : Bool) {done : List String} {segment : String}
    (hsegment : '/' ∉ segment.toList)
    (hdone : ∃ names ups, done = names ++ ups ∧ (∀ n ∈ names, IsName n) ∧ ∀ u ∈ ups, u = "..") :
    ∃ names ups, normaliseStep absolute done segment = names ++ ups ∧ (∀ n ∈ names, IsName n) ∧
      ∀ u ∈ ups, u = ".." := by
  obtain ⟨names, ups, rfl, hnames, hups⟩ := hdone
  unfold normaliseStep
  split
  next => exact ⟨names, ups, rfl, hnames, hups⟩
  next hidle =>
    split
    next hup =>
      cases names with
      | nil =>
        cases ups with
        | nil =>
          refine ⟨[], if absolute then [] else [".."], rfl, by simp, ?_⟩
          intro u hu
          split at hu
          · cases hu
          · exact List.mem_singleton.1 hu
        | cons up rest =>
          obtain rfl := hups up (List.mem_cons_self ..)
          exact ⟨[], ".." :: ".." :: rest, rfl, by simp, by simpa using hups⟩
      | cons top rest =>
        have htop : top ≠ ".." := (hnames top (List.mem_cons_self ..)).2.2.1
        refine ⟨rest, ups, ?_, fun n hn => hnames n (List.mem_cons_of_mem _ hn), hups⟩
        simp
    next hup =>
      simp only [isIdle, Bool.or_eq_true, beq_iff_eq, not_or] at hidle
      exact ⟨segment :: names, ups, rfl,
        List.forall_mem_cons.2 ⟨⟨hidle.1, hidle.2, hup, hsegment⟩, hnames⟩, hups⟩

/-- Normalised segments are steps up and then names. -/
theorem exists_ups_normaliseSegments (absolute : Bool) {segments : List String}
    (hsegments : ∀ segment ∈ segments, '/' ∉ segment.toList) :
    ∃ ups names, normaliseSegments absolute segments = ups ++ names ∧ (∀ u ∈ ups, u = "..") ∧
      ∀ n ∈ names, IsName n := by
  have hstack : ∀ done : List String,
      (∃ names ups, done = names ++ ups ∧ (∀ n ∈ names, IsName n) ∧ ∀ u ∈ ups, u = "..") →
      ∃ names ups, segments.foldl (normaliseStep absolute) done = names ++ ups ∧
        (∀ n ∈ names, IsName n) ∧ ∀ u ∈ ups, u = ".." := by
    induction segments with
    | nil => exact fun done hdone => hdone
    | cons segment rest ih =>
      intro done hdone
      exact ih (fun s hs => hsegments s (List.mem_cons_of_mem _ hs)) _
        (exists_ups_normaliseStep absolute (hsegments segment (List.mem_cons_self ..)) hdone)
  obtain ⟨names, ups, hfold, hnames, hups⟩ := hstack [] ⟨[], [], rfl, by simp, by simp⟩
  refine ⟨ups.reverse, names.reverse, ?_, by simpa using hups, by simpa using hnames⟩
  rw [normaliseSegments, hfold, List.reverse_append]

/-- Behind idle segments, a normalised path is steps up and then names. -/
theorem exists_segments_normalise (path : String) : ∃ idle ups names,
    segments (normalise path) = idle ++ (ups ++ names) ∧
      normaliseSegments (isAbsolute path) (segments path) = ups ++ names ∧
      (∀ segment ∈ idle, isIdle segment = true) ∧ (∀ u ∈ ups, u = "..") ∧
      ∀ n ∈ names, IsName n := by
  have hpath : ∀ segment ∈ segments path, '/' ∉ segment.toList :=
    fun _ h => not_mem_of_mem_segments h
  obtain ⟨ups, names, hsegments, hups, hnames⟩ :=
    exists_ups_normaliseSegments (isAbsolute path) hpath
  have hslashes : ∀ segment ∈ ups ++ names, '/' ∉ segment.toList := by
    intro segment hsegment
    rcases List.mem_append.1 hsegment with h | h
    · rw [hups segment h]
      decide
    · exact (hnames segment h).2.2.2
  obtain ⟨idle, hidle, hassemble⟩ := exists_segments_assemble (root_cases path) hslashes
  exact ⟨idle, ups, names, by rw [normalise, hsegments, hassemble], hsegments, hidle, hups, hnames⟩

/-- A normalised path is never empty. -/
theorem normalise_ne_empty (path : String) : normalise path ≠ "" := by
  obtain ⟨-, ups, names, -, hsegments, -, hups, hnames⟩ := exists_segments_normalise path
  intro h
  rw [normalise, hsegments, assemble] at h
  split at h
  next => simp at h
  next hne =>
    obtain ⟨hroot, hempty⟩ := String.append_eq_empty_iff.1 h
    have hne' : ups ++ names ≠ [] := fun e => hne ⟨hroot, e⟩
    have hslashes : ∀ segment ∈ ups ++ names, segment ≠ "" ∧ '/' ∉ segment.toList := by
      intro segment hsegment
      rcases List.mem_append.1 hsegment with h | h
      · rw [hups segment h]
        decide
      · exact ⟨(hnames segment h).1, (hnames segment h).2.2.2⟩
    have hjoined := segments_ofSegments hne' fun segment h => (hslashes segment h).2
    rw [hempty, segments_empty] at hjoined
    exact (hslashes "" (hjoined ▸ List.mem_singleton_self "")).1 rfl

/-- A name is put on the stack. -/
theorem normaliseStep_of_isName (absolute : Bool) (done : List String) (hname : IsName name) :
    normaliseStep absolute done name = name :: done := by
  simp [normaliseStep, hname.not_isIdle, hname.2.2.1]

/-- A name at the end of a path is still there when the path is normalised. -/
theorem exists_segments_normalise_of_isName (hname : IsName name) {above : List String}
    (h : segments path = above ++ [name]) :
    ∃ above', segments (normalise path) = above' ++ [name] := by
  obtain ⟨idle, ups, names, hsegments, hnormalise, -⟩ := exists_segments_normalise path
  refine ⟨idle ++ normaliseSegments (isAbsolute path) above, ?_⟩
  rw [hsegments, ← hnormalise, h, normaliseSegments, normaliseSegments, List.foldl_append,
    List.foldl_cons, List.foldl_nil, normaliseStep_of_isName _ _ hname, List.reverse_cons,
    List.append_assoc]

end StyleBundle.Path
