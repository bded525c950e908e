import StyleBundle.Path

/-!
# Segments and lexical descent

Paths are split into segments and normalised on a stack. Two facts carry every statement about
paths: segments put together from names come apart into the same names, and normalising a path
from the root descends through its segments one by one.
-/

namespace StyleBundle.Text

/-- A separator between two texts separates their pieces. -/
theorem split_append_separator (separator : Char) (s t : List Char) :
    split separator (s ++ separator :: t) = split separator s ++ split separator t := by
  induction s with
  | nil => simp [split]
  | cons c rest ih =>
    by_cases h : c = separator
    · simp [split, h, ih]
    · obtain ⟨piece, pieces, hs⟩ := List.exists_cons_of_ne_nil (split_ne_nil separator rest)
      simp [split, h, ih, hs]

/-- A text without separators is one piece. -/
theorem split_of_not_mem {separator : Char} {s : List Char} (h : separator ∉ s) :
    split separator s = [s] := by
  induction s with
  | nil => rfl
  | cons c rest ih =>
    simp only [List.mem_cons, not_or] at h
    rw [split, if_neg (Ne.symm h.1), ih h.2]

/-- No piece holds a separator. -/
theorem not_mem_of_mem_split {separator : Char} {s piece : List Char}
    (h : piece ∈ split separator s) : separator ∉ piece := by
  induction s generalizing piece with
  | nil => simp_all [split]
  | cons c rest ih =>
    obtain ⟨first, pieces, hs⟩ := List.exists_cons_of_ne_nil (split_ne_nil separator rest)
    rw [hs] at ih
    by_cases hc : c = separator
    · rw [split, if_pos hc, hs] at h
      rcases List.mem_cons.1 h with rfl | h
      · simp
      · exact ih h
    · rw [split, if_neg hc, hs] at h
      rcases List.mem_cons.1 h with rfl | h
      · have hfirst := ih (List.mem_cons_self ..)
        simp [hfirst, Ne.symm hc]
      · exact ih (List.mem_cons_of_mem _ h)

/-- Splitting undoes joining where no piece holds the separator. -/
theorem split_join {separator : Char} {pieces : List (List Char)} (hne : pieces ≠ [])
    (h : ∀ piece ∈ pieces, separator ∉ piece) : split separator (join separator pieces) = pieces := by
  induction pieces with
  | nil => exact absurd rfl hne
  | cons piece rest ih =>
    have hpiece := split_of_not_mem (h piece (List.mem_cons_self ..))
    cases rest with
    | nil => exact hpiece
    | cons next rest =>
      rw [join, split_append_separator, hpiece,
        ih (by simp) fun p hp => h p (List.mem_cons_of_mem _ hp)]
      · rfl
      · simp

/-- A piece more is joined behind a separator. -/
theorem join_concat {separator : Char} {pieces : List (List Char)} (hne : pieces ≠ [])
    (piece : List Char) :
    join separator (pieces ++ [piece]) = join separator pieces ++ separator :: piece := by
  induction pieces with
  | nil => exact absurd rfl hne
  | cons first rest ih =>
    cases rest with
    | nil => rfl
    | cons next rest =>
      have h := ih (by simp)
      simp only [List.cons_append, join] at h ⊢
      rw [h, List.append_assoc]
      rfl

/-- A character of joined pieces is a separator or stands in a piece. -/
theorem mem_join {separator c : Char} {pieces : List (List Char)} (h : c ∈ join separator pieces) :
    c = separator ∨ ∃ piece ∈ pieces, c ∈ piece := by
  induction pieces with
  | nil => simp [join] at h
  | cons piece rest ih =>
    cases rest with
    | nil => exact .inr ⟨piece, by simp, h⟩
    | cons next rest =>
      rw [join] at h
      · rcases List.mem_append.1 h with h | h
        · exact .inr ⟨piece, by simp, h⟩
        · rcases List.mem_cons.1 h with rfl | h
          · exact .inl rfl
          · rcases ih h with rfl | ⟨p, hp, hc⟩
            · exact .inl rfl
            · exact .inr ⟨p, List.mem_cons_of_mem _ hp, hc⟩
      · simp

/-- What stands in a piece stands in the joined pieces. -/
theorem mem_join_of_mem {separator c : Char} {pieces : List (List Char)} {piece : List Char}
    (hpiece : piece ∈ pieces) (hc : c ∈ piece) : c ∈ join separator pieces := by
  induction pieces with
  | nil => cases hpiece
  | cons first rest ih =>
    cases rest with
    | nil => rwa [join, ← List.mem_singleton.1 hpiece]
    | cons next rest =>
      rw [join]
      · rcases List.mem_cons.1 hpiece with rfl | hpiece
        · exact List.mem_append_left _ hc
        · exact List.mem_append_right _ (List.mem_cons_of_mem _ (ih hpiece))
      · simp

end StyleBundle.Text

namespace StyleBundle.Path

/-- A segment that names something below a directory. -/
def IsName (segment : String) : Prop :=
  segment ≠ "" ∧ segment ≠ "." ∧ segment ≠ ".." ∧ '/' ∉ segment.toList

instance (segment : String) : Decidable (IsName segment) := by
  unfold IsName
  infer_instance

/-- Three characters without a slash are enough for a name. -/
theorem isName_of_two_lt {segment : String} (hlong : 2 < segment.toList.length)
    (hslash : '/' ∉ segment.toList) : IsName segment := by
  refine ⟨?_, ?_, ?_, hslash⟩
  · rintro rfl
    simp at hlong
  · rintro rfl
    simp at hlong
  · rintro rfl
    simp at hlong

theorem IsName.not_isIdle {segment : String} (h : IsName segment) : isIdle segment = false := by
  simp [isIdle, h.1, h.2.1]

/-- A slash between two paths separates their segments. -/
theorem segments_append_slash (base path : String) :
    segments (base ++ "/" ++ path) = segments base ++ segments path := by
  have h : (base ++ "/" ++ path).toList = base.toList ++ '/' :: path.toList := by simp
  rw [segments, h, Text.split_append_separator, List.map_append]
  rfl

/-- The empty path has one empty segment. -/
theorem segments_empty : segments "" = [""] := rfl

/-- A slash in front adds an empty segment. -/
theorem segments_slash (path : String) : segments ("/" ++ path) = "" :: segments path := by
  simpa [segments_empty] using segments_append_slash "" path

/-- Segments hold no slashes. -/
theorem not_mem_of_mem_segments {path segment : String} (h : segment ∈ segments path) :
    '/' ∉ segment.toList := by
  obtain ⟨piece, hpiece, rfl⟩ := List.mem_map.1 h
  simpa using Text.not_mem_of_mem_split hpiece

/-- A character of a path is a slash or stands in a segment. -/
theorem mem_segments_of_mem {path : String} {c : Char} (h : c ∈ path.toList) :
    c = '/' ∨ ∃ segment ∈ segments path, c ∈ segment.toList := by
  rw [← Text.join_split '/' path.toList] at h
  rcases Text.mem_join h with h | ⟨piece, hpiece, hc⟩
  · exact .inl h
  · exact .inr ⟨String.ofList piece, List.mem_map_of_mem hpiece, by simpa using hc⟩

/-- What stands in a segment stands in the path. -/
theorem mem_of_mem_segments {path segment : String} {c : Char} (hsegment : segment ∈ segments path)
    (hc : c ∈ segment.toList) : c ∈ path.toList := by
  obtain ⟨piece, hpiece, rfl⟩ := List.mem_map.1 hsegment
  rw [← Text.join_split '/' path.toList]
  exact Text.mem_join_of_mem hpiece (by simpa using hc)

/-- Names joined by slashes come apart again. -/
theorem segments_ofSegments {names : List String} (hne : names ≠ [])
    (h : ∀ name ∈ names, '/' ∉ name.toList) : segments (ofSegments names) = names := by
  have hjoin : Text.split '/' (Text.join '/' (names.map String.toList)) = names.map String.toList := by
    apply Text.split_join (by simpa using hne)
    intro piece hpiece
    obtain ⟨name, hname, rfl⟩ := List.mem_map.1 hpiece
    exact h name hname
  simp [segments, ofSegments, hjoin]

/-! ## Lexical descent -/

/-- The location behind one more segment, told by the segment alone. -/
def descend (here : List String) (segment : String) : List String :=
  if isIdle segment then here
  else if segment = ".." then here.dropLast
  else here ++ [segment]

/-- Idle segments lead nowhere. -/
theorem descend_of_isIdle {segment : String} (h : isIdle segment = true) (here : List String) :
    descend here segment = here := by simp [descend, h]

/-- The empty path leads nowhere. -/
theorem foldl_segments_empty (here : List String) : (segments "").foldl descend here = here := by
  rw [segments_empty, List.foldl_cons, List.foldl_nil, descend_of_isIdle rfl]

/-- A name leads one level down. -/
theorem descend_of_isName {segment : String} (h : IsName segment) (here : List String) :
    descend here segment = here ++ [segment] := by simp [descend, h.not_isIdle, h.2.2.1]

/-- Names lead down one after another. -/
theorem foldl_descend_of_isName {names : List String} (h : ∀ name ∈ names, IsName name)
    (here : List String) : names.foldl descend here = here ++ names := by
  induction names generalizing here with
  | nil => simp
  | cons name rest ih =>
    rw [List.foldl_cons, descend_of_isName (h name (List.mem_cons_self ..)),
      ih fun n hn => h n (List.mem_cons_of_mem _ hn)]
    simp

/-- Descending from a location of names through the segments of a path meets names only. -/
theorem isName_of_mem_foldl_descend {segments here : List String}
    (hsegments : ∀ segment ∈ segments, '/' ∉ segment.toList) (hhere : ∀ name ∈ here, IsName name) :
    ∀ name ∈ segments.foldl descend here, IsName name := by
  induction segments generalizing here with
  | nil => exact hhere
  | cons segment rest ih =>
    refine ih (fun s hs => hsegments s (List.mem_cons_of_mem _ hs)) ?_
    intro name hname
    unfold descend at hname
    split at hname
    · exact hhere name hname
    · split at hname
      · exact hhere name (List.dropLast_subset here hname)
      next hidle hup =>
        rcases List.mem_append.1 hname with hname | hname
        · exact hhere name hname
        · obtain rfl := List.mem_singleton.1 hname
          simp only [isIdle, Bool.or_eq_true, beq_iff_eq, not_or] at hidle
          exact ⟨hidle.1, hidle.2, hup, hsegments _ (List.mem_cons_self ..)⟩

/-- What is met by descending is a name that was there or one of the segments. -/
theorem mem_or_mem_of_mem_foldl_descend {segments here : List String} {name : String}
    (h : name ∈ segments.foldl descend here) : name ∈ here ∨ name ∈ segments := by
  induction segments generalizing here with
  | nil => exact .inl h
  | cons segment rest ih =>
    rcases ih h with hbelow | hrest
    · unfold descend at hbelow
      split at hbelow
      · exact .inl hbelow
      · split at hbelow
        · exact .inl (List.dropLast_subset here hbelow)
        · rcases List.mem_append.1 hbelow with hhere | hsegment
          · exact .inl hhere
          · exact .inr (List.mem_singleton.1 hsegment ▸ List.mem_cons_self ..)
    · exact .inr (List.mem_cons_of_mem _ hrest)

/-- One step of normalising from the root is one step of descent, as long as no step up is on the
stack. -/
theorem reverse_normaliseStep {done : List String} (h : ".." ∉ done) (segment : String) :
    (normaliseStep true done segment).reverse = descend done.reverse segment := by
  unfold normaliseStep descend
  split
  · rfl
  · split
    · cases done with
      | nil => rfl
      | cons top rest =>
        have htop : top ≠ ".." := fun e => h (e ▸ List.mem_cons_self ..)
        simp
    · simp

/-- Normalising from the root leaves no step up on the stack. -/
theorem not_mem_normaliseStep {done : List String} (h : ".." ∉ done) (segment : String) :
    ".." ∉ normaliseStep true done segment := by
  unfold normaliseStep
  split
  · exact h
  · split
    · cases done with
      | nil => simp
      | cons top rest =>
        have hrest : ".." ∉ rest := fun hr => h (List.mem_cons_of_mem _ hr)
        grind
    next hup => simp [h, Ne.symm hup]

/-- Normalising the segments of a path from the root is descending through them. -/
theorem normaliseSegments_true (segments : List String) :
    normaliseSegments true segments = segments.foldl descend [] := by
  have hstack : ∀ done : List String, ".." ∉ done →
      (segments.foldl (normaliseStep true) done).reverse = segments.foldl descend done.reverse := by
    induction segments with
    | nil => simp
    | cons segment rest ih =>
      intro done hdone
      rw [List.foldl_cons, List.foldl_cons, ← reverse_normaliseStep hdone segment]
      exact ih _ (not_mem_normaliseStep hdone segment)
  exact hstack [] (by simp)

/-! ## Paths from the root -/

/-- What holds no slash is relative. -/
theorem isAbsolute_of_not_mem {path : String} (h : '/' ∉ path.toList) :
    isAbsolute path = false := by
  have hhead : path.toList.head? ≠ some '/' := fun hhead => h (List.mem_of_head? hhead)
  simpa [isAbsolute] using hhead

/-- What is put behind a path from the root leaves it one. -/
theorem isAbsolute_append {path : String} (h : isAbsolute path = true) (tail : String) :
    isAbsolute (path ++ tail) = true := by
  obtain ⟨rest, hrest⟩ := List.head?_eq_some_iff.1 (by simpa [isAbsolute] using h)
  simp [isAbsolute, hrest]

/-- A path from the root starts with one slash or with two. -/
theorem root_of_isAbsolute {path : String} (h : isAbsolute path = true) :
    root path = "/" ∨ root path = "//" := by
  have hhead : path.toList.head? = some '/' := by simpa [isAbsolute] using h
  obtain ⟨rest, hrest⟩ := List.head?_eq_some_iff.1 hhead
  unfold root
  rw [hrest]
  split <;> simp_all

/-- Joining a path from the root with a relative one descends through the one and then through the
other. -/
theorem foldl_segments_join {base path : String} (hbase : base ≠ "")
    (hpath : isAbsolute path = false) (here : List String) :
    (segments (join base path)).foldl descend here =
      (segments path).foldl descend ((segments base).foldl descend here) := by
  rw [join, if_neg (by simp [hpath])]
  split
  next h =>
    obtain ⟨front, hfront⟩ := List.getLast?_eq_some_iff.1 (h.resolve_left hbase)
    obtain rfl : base = String.ofList front ++ "/" := by simp [← String.toList_inj, hfront]
    have hbase := segments_append_slash (String.ofList front) ""
    rw [String.append_empty, segments_empty] at hbase
    rw [segments_append_slash, hbase, List.foldl_append, List.foldl_append]
    rfl
  next => rw [segments_append_slash, List.foldl_append]

/-- A path joined behind one from the root starts at the root. -/
theorem isAbsolute_join {base path : String} (h : isAbsolute base = true) :
    isAbsolute (join base path) = true := by
  have hhead : base.toList.head? = some '/' := by simpa [isAbsolute] using h
  obtain ⟨rest, hrest⟩ := List.head?_eq_some_iff.1 hhead
  unfold join
  split
  · assumption
  · split <;> simp [isAbsolute, hrest]

/-- A normalised path from the root is its slashes and the names that its segments lead to. -/
theorem normalise_of_isAbsolute {path : String} (h : isAbsolute path = true) :
    normalise path = root path ++ ofSegments ((segments path).foldl descend []) := by
  rw [normalise, h, normaliseSegments_true, assemble, if_neg]
  rcases root_of_isAbsolute h with hr | hr <;> simp [hr]

/-- Joined segments do not start with a slash, as long as the first one is not empty. -/
theorem head?_ofSegments {segments : List String}
    (h : ∀ segment ∈ segments, segment ≠ "" ∧ '/' ∉ segment.toList) :
    (ofSegments segments).toList.head? ≠ some '/' := by
  cases segments with
  | nil => simp [ofSegments, Text.join]
  | cons segment rest =>
    obtain ⟨hne, hslash⟩ := h segment (List.mem_cons_self ..)
    obtain ⟨c, cs, hcs⟩ := List.exists_cons_of_ne_nil (mt String.toList_eq_nil_iff.1 hne)
    have hc : c ≠ '/' := fun e => hslash (by simp [hcs, e])
    cases rest <;> simp [ofSegments, Text.join, hcs, hc]

/-- One slash in front of names is the root of the path. -/
theorem root_slash {names : List String} (h : ∀ name ∈ names, IsName name) :
    root ("/" ++ ofSegments names) = "/" := by
  have hhead := head?_ofSegments fun n hn => ⟨(h n hn).1, (h n hn).2.2.2⟩
  unfold root
  cases hcs : (ofSegments names).toList with
  | nil => simp [hcs]
  | cons c cs =>
    have hc : c ≠ '/' := by simpa [hcs] using hhead
    simp [hcs, hc]

/-- Two slashes in front of names are the root of the path. -/
theorem root_twoSlashes {names : List String} (h : ∀ name ∈ names, IsName name) :
    root ("/" ++ ("/" ++ ofSegments names)) = "//" := by
  have hhead := head?_ofSegments fun n hn => ⟨(h n hn).1, (h n hn).2.2.2⟩
  unfold root
  cases hcs : (ofSegments names).toList with
  | nil => simp [hcs]
  | cons c cs =>
    have hc : c ≠ '/' := by simpa [hcs] using hhead
    simp [hcs, hc]

end StyleBundle.Path
