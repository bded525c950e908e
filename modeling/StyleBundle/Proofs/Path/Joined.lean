import StyleBundle.Proofs.Path.Directory

/-!
# Joined paths

A path is normalised by its names, and a joined path has the names of both. Normalising acts on what
comes behind like the segments themselves, so a part of a path may be normalised before the rest is
joined to it.
-/

namespace StyleBundle.Path

variable {base path front name other target : String}

/-! ## The root of a joined path -/

/-- A relative path has no root. -/
theorem root_of_relative (h : isAbsolute path = false) : root path = "" := by
  by_contra hroot
  rw [isAbsolute_iff_root.2 hroot] at h
  cases h

/-- What starts at the root is told by the root. -/
theorem isAbsolute_eq_of_root_eq (h : root path = root other) :
    isAbsolute path = isAbsolute other := by
  rw [Bool.eq_iff_iff, isAbsolute_iff_root, isAbsolute_iff_root, h]

/-- A relative path put behind another one does not change its root. -/
theorem root_append_of_relative (hbase : base ≠ "") (h : isAbsolute path = false) :
    root (base ++ path) = root base := by
  have hhead : path.toList.head? ≠ some '/' := by simpa [isAbsolute] using h
  by_cases hall : base.toList.all (· = '/') = false
  · exact root_append hall path
  -- Of slashes alone, no more than three count.
  unfold root
  rw [String.toList_append]
  rcases hcs : base.toList with _ | ⟨a, _ | ⟨b, _ | ⟨c, rest⟩⟩⟩
  · exact absurd (String.toList_eq_nil_iff.1 hcs) hbase
  · cases ht : path.toList with
    | nil => simp
    | cons c cs =>
      have hc : c ≠ '/' := by simpa [ht] using hhead
      by_cases ha : a = '/' <;> simp [ha, hc]
  · cases ht : path.toList with
    | nil => simp
    | cons c cs =>
      have hc : c ≠ '/' := by simpa [ht] using hhead
      by_cases ha : a = '/' <;> by_cases hb : b = '/' <;> simp [ha, hb, hc]
  · by_cases ha : a = '/' <;> by_cases hb : b = '/' <;> by_cases hc : c = '/' <;> simp [ha, hb, hc]

/-- A relative path joined behind another one does not change its root. -/
theorem root_join_of_relative (base : String) (h : isAbsolute path = false) :
    root (join base path) = root base := by
  rw [join, if_neg (by simp [h])]
  by_cases hbase : base = ""
  · subst hbase
    rw [if_pos (.inl rfl), String.empty_append, root_of_relative h]
    rfl
  · split
    next => exact root_append_of_relative hbase h
    next hlast =>
      have hall : base.toList.all (· = '/') = false := by
        rw [List.all_eq_false]
        obtain ⟨above, c, hc⟩ :=
          (List.eq_nil_or_concat base.toList).resolve_left (mt String.toList_eq_nil_iff.1 hbase)
        refine ⟨c, by simp [hc], ?_⟩
        simp only [hc, List.concat_eq_append, List.getLast?_concat, Option.some.injEq, not_or]
          at hlast
        simpa using hlast.2
      rw [String.append_assoc]
      exact root_append hall _

/-- The slashes at the end are all that is dropped from it. -/
theorem exists_eq_dropEndSlashes_append (path : String) :
    ∃ slashes : String, path = dropEndSlashes path ++ slashes ∧
      slashes.toList.all (· = '/') = true := by
  have hsplit := List.takeWhile_append_dropWhile (p := (· = '/')) (l := path.toList.reverse)
  refine ⟨String.ofList (path.toList.reverse.takeWhile (· = '/')).reverse, ?_, ?_⟩
  · have hpath := congrArg List.reverse hsplit
    rw [List.reverse_append, List.reverse_reverse] at hpath
    rw [← String.toList_inj, String.toList_append, dropEndSlashes, String.toList_ofList,
      String.toList_ofList, hpath]
  · rw [String.toList_ofList, List.all_reverse, List.all_eq_true]
    intro c hc
    simpa using List.mem_takeWhile_imp hc

/-- The directory of a path has its root. -/
theorem root_directory (path : String) : root (directory path) = root path := by
  obtain ⟨front, name, rfl, hname, hfront⟩ := exists_front path
  have hrelative := isAbsolute_of_not_mem hname
  rw [directory, splitLast_append hname hfront]
  split
  next =>
    by_cases hempty : front = ""
    · rw [hempty, String.empty_append, root_of_relative hrelative]
      rfl
    · exact (root_append_of_relative hempty hrelative).symm
  next hsome =>
    obtain ⟨slashes, hslashes, hall⟩ := exists_eq_dropEndSlashes_append front
    have hkept : (dropEndSlashes front).toList.all (· = '/') = false := by
      rw [hslashes, String.toList_append, List.all_append, hall, Bool.and_true] at hsome
      simpa using hsome
    have hpath : front ++ name = dropEndSlashes front ++ (slashes ++ name) := by
      rw [← String.append_assoc, ← hslashes]
    rw [hpath, root_append hkept]

/-! ## The names of a joined path -/

/-- A slash between two paths separates their names. -/
theorem names_append_slash (base path : String) :
    names (base ++ "/" ++ path) = names base ++ names path := by
  rw [names, segments_append_slash, List.filter_append]
  rfl

/-- A slash at the end adds no name. -/
theorem names_slash_end (base : String) : names (base ++ "/") = names base := by
  have h := names_append_slash base ""
  rwa [String.append_empty, show names "" = [] from rfl, List.append_nil] at h

/-- What stands before the last slash and what stands behind it have the names of the path. -/
theorem names_append (name : String) (hfront : front = "" ∨ front.toList.getLast? = some '/') :
    names (front ++ name) = names front ++ names name := by
  rcases hfront with rfl | hfront
  · rw [String.empty_append]
    rfl
  · obtain ⟨above, habove⟩ := List.getLast?_eq_some_iff.1 hfront
    obtain rfl : front = String.ofList above ++ "/" := by simp [← String.toList_inj, habove]
    rw [names_append_slash, names_slash_end]

/-- A path joined with a relative one has the names of both. -/
theorem names_join (base : String) (h : isAbsolute path = false) :
    names (join base path) = names base ++ names path := by
  rw [join, if_neg (by simp [h])]
  split
  next hfront => exact names_append path hfront
  next => exact names_append_slash base path

/-- Slashes at the end add no name. -/
theorem names_dropEndSlashes (path : String) : names (dropEndSlashes path) = names path :=
  apply_dropEndSlashes names_slash_end path

/-- The directory of a path and its last segment have the names of the path. -/
theorem names_directory_append (path : String) :
    names (directory path) ++ names (splitLast path).2 = names path := by
  obtain ⟨front, name, rfl, hname, hfront⟩ := exists_front path
  rw [directory, splitLast_append hname hfront, names_append name hfront]
  split
  next => rfl
  next => rw [names_dropEndSlashes]

/-! ## Normalising a part -/

/-- An idle segment leaves the stack as it is. -/
theorem normaliseStep_of_isIdle {segment : String} (absolute : Bool) (done : List String)
    (h : isIdle segment = true) : normaliseStep absolute done segment = done := by
  simp [normaliseStep, h]

/-- A segment that names something, and no step up, is put on the stack. -/
theorem normaliseStep_of_ne_up {segment : String} (absolute : Bool) (done : List String)
    (hidle : isIdle segment = false) (hup : segment ≠ "..") :
    normaliseStep absolute done segment = segment :: done := by
  simp [normaliseStep, hidle, hup]

/-- A step up takes the segment on top of the stack, unless that is a step up. -/
theorem normaliseStep_up {top : String} (absolute : Bool) (done : List String) (h : top ≠ "..") :
    normaliseStep absolute (top :: done) ".." = done := by
  simp [normaliseStep, isIdle]

/-- Idle segments leave nothing on the stack. -/
theorem foldl_normaliseStep_filter (absolute : Bool) (done segments : List String) :
    (segments.filter (!isIdle ·)).foldl (normaliseStep absolute) done =
      segments.foldl (normaliseStep absolute) done := by
  rw [List.foldl_filter]
  congr 1
  funext done segment
  cases hidle : isIdle segment with
  | false => simp
  | true => simp [normaliseStep_of_isIdle absolute done hidle]

/-- A path is normalised by its names. -/
theorem normalise_eq_names (path : String) :
    normalise path = assemble (root path) (normaliseSegments (isAbsolute path) (names path)) := by
  rw [normalise, normaliseSegments, normaliseSegments, names, foldl_normaliseStep_filter]

/-- What is on the stack is not idle. -/
theorem not_isIdle_of_mem_foldl (absolute : Bool) (segments : List String) :
    ∀ segment ∈ segments.foldl (normaliseStep absolute) [], isIdle segment = false := by
  induction segments using List.reverseRecOn with
  | nil => simp
  | append_singleton segments last ih =>
    rw [List.foldl_append, List.foldl_cons, List.foldl_nil]
    generalize segments.foldl (normaliseStep absolute) [] = done at ih
    unfold normaliseStep
    split
    next => exact ih
    next hidle =>
      split
      next hup =>
        subst hup
        cases done with
        | nil => cases absolute <;> simp [isIdle]
        | cons top rest =>
          split
          next => cases ‹_ :: _ = []›
          next => exact List.forall_mem_cons.2 ⟨rfl, ih⟩
          next heq =>
            obtain ⟨-, rfl⟩ := List.cons.inj heq
            exact fun segment hsegment => ih segment (List.mem_cons_of_mem _ hsegment)
      next => exact List.forall_mem_cons.2 ⟨by simpa using hidle, ih⟩

/-- Normalised segments act on a stack like the segments themselves. What was lost at the root is
lost again where the stack is empty and stands for the root too. -/
theorem foldl_normaliseStep_normaliseSegments {absolute absolute' : Bool} {done : List String}
    (h : absolute' = true → absolute = true ∧ done = []) (segments : List String) :
    (normaliseSegments absolute' segments).foldl (normaliseStep absolute) done =
      segments.foldl (normaliseStep absolute) done := by
  rw [normaliseSegments]
  induction segments using List.reverseRecOn with
  | nil => rfl
  | append_singleton segments last ih =>
    have hkept := not_isIdle_of_mem_foldl absolute' segments
    rw [List.foldl_append, List.foldl_append, List.foldl_cons, List.foldl_nil, List.foldl_cons,
      List.foldl_nil, ← ih]
    generalize segments.foldl (normaliseStep absolute') [] = stack at hkept
    -- A segment that is put on the first stack is the last one that acts on the second.
    have hput (segment : String) : (segment :: stack).reverse.foldl (normaliseStep absolute) done =
        normaliseStep absolute (stack.reverse.foldl (normaliseStep absolute) done) segment := by
      rw [List.reverse_cons, List.foldl_append, List.foldl_cons, List.foldl_nil]
    by_cases hidle : isIdle last = true
    · rw [normaliseStep_of_isIdle _ _ hidle, normaliseStep_of_isIdle _ _ hidle]
    rw [Bool.not_eq_true] at hidle
    by_cases hup : last = ".."
    · subst hup
      cases stack with
      | nil =>
        cases absolute' with
        | false => rfl
        | true =>
          obtain ⟨rfl, rfl⟩ := h rfl
          rfl
      | cons top rest =>
        by_cases htop : top = ".."
        · subst htop
          exact hput ".."
        · have hname := hkept top (List.mem_cons_self ..)
          rw [List.reverse_cons, List.foldl_append, List.foldl_cons, List.foldl_nil,
            normaliseStep_of_ne_up _ _ hname htop, normaliseStep_up _ _ htop,
            normaliseStep_up _ _ htop]
    · rw [normaliseStep_of_ne_up _ stack hidle hup, hput]

/-! ## The names of a normalised path -/

/-- Normalised names are steps. -/
theorem isStep_of_mem_normaliseSegments {absolute : Bool} {step : String}
    (h : step ∈ normaliseSegments absolute (names path)) : IsStep step := by
  obtain ⟨ups, steps, hsteps, hups, hnames⟩ := exists_ups_normaliseSegments absolute
    fun segment (h : segment ∈ names path) => (isStep_of_mem_names h).2
  rw [hsteps] at h
  rcases List.mem_append.1 h with h | h
  · rw [hups step h]
    exact ⟨rfl, by decide⟩
  · exact (hnames step h).isStep

/-- The names of a normalised path are its normalised names. -/
theorem names_normalise (path : String) :
    names (normalise path) = normaliseSegments (isAbsolute path) (names path) := by
  rw [normalise_eq_names, names_assemble path fun _ h => isStep_of_mem_normaliseSegments h]

/-- A normalised path has the root of the path. -/
theorem root_normalise (path : String) : root (normalise path) = root path := by
  rw [normalise_eq_names, root_assemble path fun _ h => isStep_of_mem_normaliseSegments h]

/-- A name at the end of a path ends the normalised path too. -/
theorem splitLast_normalise (h : IsName (splitLast path).2) :
    (splitLast (normalise path)).2 = (splitLast path).2 := by
  obtain ⟨above, habove⟩ := exists_segments_splitLast path
  obtain ⟨kept, hkept⟩ := exists_segments_normalise_of_isName h habove
  obtain ⟨front, hfront⟩ := exists_segments_splitLast (normalise path)
  exact (List.append_singleton_inj.1 (hfront.symm.trans hkept)).2

/-- The directory of a normalised path has the normalised names of the directory, where the path
ends in a name. -/
theorem names_directory_normalise (h : IsName (splitLast path).2) :
    names (directory (normalise path)) =
      normaliseSegments (isAbsolute path) (names (directory path)) := by
  have hname : names (splitLast path).2 = [(splitLast path).2] := by
    simp [names, segments_of_isName h, h.not_isIdle]
  have hnormalised := names_directory_append (normalise path)
  rw [names_normalise, ← names_directory_append path, splitLast_normalise h, hname,
    normaliseSegments, List.foldl_append, List.foldl_cons, List.foldl_nil,
    normaliseStep_of_isName _ _ h, List.reverse_cons] at hnormalised
  exact (List.append_singleton_inj.1 hnormalised).1

/-! ## Joining behind a normalised directory -/

/-- A relative path behind another one is normalised with the names of both. -/
theorem normalise_join_of_relative (base : String) (h : isAbsolute path = false) :
    normalise (join base path) =
      assemble (root base) (normaliseSegments (isAbsolute base) (names base ++ names path)) := by
  have hroot := root_join_of_relative base h
  rw [normalise_eq_names, isAbsolute_eq_of_root_eq hroot, hroot, names_join base h]

/-- The part in front may be normalised first, as it starts at the root. -/
theorem normaliseSegments_front (absolute : Bool) (front rest : List String) :
    normaliseSegments absolute (normaliseSegments absolute front ++ rest) =
      normaliseSegments absolute (front ++ rest) := by
  rw [normaliseSegments, List.foldl_append,
    foldl_normaliseStep_normaliseSegments fun h => ⟨h, rfl⟩, ← List.foldl_append, normaliseSegments]

/-- Normalising a path again changes nothing. -/
theorem normalise_normalise (path : String) : normalise (normalise path) = normalise path := by
  have hagain := normaliseSegments_front (isAbsolute path) (names path) []
  simp only [List.append_nil] at hagain
  rw [normalise_eq_names (normalise path), root_normalise,
    isAbsolute_eq_of_root_eq (root_normalise path), names_normalise, hagain, ← normalise_eq_names]

/-- A part behind others may be normalised first, as a relative path. -/
theorem normaliseSegments_middle (absolute : Bool) (above middle rest : List String) :
    normaliseSegments absolute (above ++ (normaliseSegments false middle ++ rest)) =
      normaliseSegments absolute (above ++ (middle ++ rest)) := by
  simp only [normaliseSegments, List.foldl_append]
  rw [← normaliseSegments, foldl_normaliseStep_normaliseSegments fun h => by cases h]

/-- What is joined behind the directory of a target leads from everywhere to the same place when the
target is normalised first, where the target ends in a name. -/
theorem normalise_join_directory_normalise (h : IsName (splitLast target).2)
    (hother : isAbsolute other = false) (base : String) :
    normalise (join base (join (directory (normalise target)) other)) =
      normalise (join base (join (directory target) other)) := by
  have hroot (path : String) : root (join (directory path) other) = root path := by
    rw [root_join_of_relative _ hother, root_directory]
  have hstart := isAbsolute_eq_of_root_eq (root_normalise target)
  cases htarget : isAbsolute target with
  | true =>
    have habsolute {path : String} (hpath : isAbsolute path = true) :
        join base (join (directory path) other) = join (directory path) other := by
      rw [join, if_pos (isAbsolute_eq_of_root_eq (hroot path) ▸ hpath)]
    rw [habsolute htarget, habsolute (hstart.trans htarget), normalise_join_of_relative _ hother,
      normalise_join_of_relative _ hother, isAbsolute_directory, isAbsolute_directory, hstart,
      root_directory, root_directory, root_normalise, names_directory_normalise h,
      normaliseSegments_front]
  | false =>
    have hrelative {path : String} (hpath : isAbsolute path = false) :
        isAbsolute (join (directory path) other) = false :=
      (isAbsolute_eq_of_root_eq (hroot path)).trans hpath
    rw [normalise_join_of_relative _ (hrelative (hstart.trans htarget)),
      normalise_join_of_relative _ (hrelative htarget), names_join _ hother, names_join _ hother,
      names_directory_normalise h, htarget, normaliseSegments_middle]

end StyleBundle.Path
