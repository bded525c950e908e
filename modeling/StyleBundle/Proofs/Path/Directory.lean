import StyleBundle.Proofs.Import.Target
import StyleBundle.Proofs.Path.Child
import StyleBundle.Proofs.Text.Pattern

/-!
# The last name of a path

A normalised path from the root is slashes and names. Its directory is the same without the last
name, and what stands before the last slash of a target leads on from there like the target itself.
-/

namespace StyleBundle.Path

variable {mark name path tail : String} {above names here : List String}

/-- The slashes in front of a path from the root. -/
def IsMark (mark : String) : Prop := mark = "/" ∨ mark = "//"

theorem isMark_root (h : isAbsolute path = true) : IsMark (root path) := root_of_isAbsolute h

theorem isAbsolute_mark_append (hmark : IsMark mark) (tail : String) :
    isAbsolute (mark ++ tail) = true := by
  rcases hmark with rfl | rfl <;> simp [isAbsolute]

/-- The slashes in front of something else mark the root of the path. -/
theorem root_mark_append (hmark : IsMark mark) (htail : tail.toList.head? ≠ some '/') :
    root (mark ++ tail) = mark := by
  unfold root
  cases hcs : tail.toList with
  | nil => rcases hmark with rfl | rfl <;> simp [hcs]
  | cons c cs =>
    have hc : c ≠ '/' := by simpa [hcs] using htail
    rcases hmark with rfl | rfl <;> simp [hcs, hc]

/-- Joined names do not start with a slash. -/
theorem head?_ofSegments_of_isName (h : ∀ name ∈ names, IsName name) :
    (ofSegments names).toList.head? ≠ some '/' :=
  head?_ofSegments fun n hn => ⟨(h n hn).1, (h n hn).2.2.2⟩

/-- Joined names are not empty. -/
theorem ofSegments_ne_empty (hne : names ≠ []) (h : ∀ name ∈ names, IsName name) :
    ofSegments names ≠ "" := by
  intro hempty
  have hsegments := segments_ofSegments hne fun name hname => (h name hname).2.2.2
  rw [hempty, segments_empty] at hsegments
  exact (h "" (by simp [← hsegments])).1 rfl

/-- Names behind slashes lead down one after another. -/
theorem foldl_segments_mark_append (hmark : IsMark mark) (h : ∀ name ∈ names, IsName name)
    (here : List String) :
    (segments (mark ++ ofSegments names)).foldl descend here = here ++ names := by
  have hassemble : assemble mark names = mark ++ ofSegments names := by
    rw [assemble, if_neg]
    rcases hmark with rfl | rfl <;> simp
  obtain ⟨idle, hidle, hsegments⟩ :=
    exists_segments_assemble (.inr hmark) fun name hname => (h name hname).2.2.2
  rw [← hassemble, hsegments, List.foldl_append, foldl_descend_of_isIdle hidle,
    foldl_descend_of_isName h]

/-- The names of a path from the root are told by the segments. -/
theorem isName_of_mem_foldl (path : String) :
    ∀ name ∈ (segments path).foldl descend [], IsName name :=
  isName_of_mem_foldl_descend (fun _ => not_mem_of_mem_segments) (by simp)

/-- A normalised path from the root is its slashes and the names that it leads to. -/
theorem eq_root_append (habsolute : isAbsolute path = true) (h : normalise path = path) :
    path = root path ++ ofSegments ((segments path).foldl descend []) :=
  h.symm.trans (normalise_of_isAbsolute habsolute)

/-- A normalised path from the root has the names that it leads to. -/
theorem names_eq_foldl (habsolute : isAbsolute path = true) (h : normalise path = path) :
    Path.names path = (segments path).foldl descend [] := by
  have hnames := isName_of_mem_foldl path
  have hpath := eq_root_append habsolute h
  generalize (segments path).foldl descend [] = steps at hnames hpath ⊢
  have hassemble : assemble (root path) steps = path := by
    rw [assemble, if_neg, ← hpath]
    rcases root_of_isAbsolute habsolute with hr | hr <;> simp [hr]
  rw [← hassemble]
  exact names_assemble path fun name hname => (hnames name hname).isStep

/-! ## Before and behind the last slash -/

/-- What is put behind a path ends it, unless it is empty. -/
theorem getLast?_append (hne : tail ≠ "") :
    (path ++ tail).toList.getLast? = tail.toList.getLast? := by
  rcases List.eq_nil_or_concat tail.toList with hnil | ⟨front, c, hc⟩
  · exact absurd (String.toList_eq_nil_iff.1 hnil) hne
  · simp [hc]

/-- Joined names do not end with a slash. -/
theorem getLast?_ofSegments (h : ∀ name ∈ names, IsName name) :
    (ofSegments names).toList.getLast? ≠ some '/' := by
  rcases List.eq_nil_or_concat names with rfl | ⟨above, name, rfl⟩
  · simp [ofSegments, Text.join]
  · rw [List.concat_eq_append] at h ⊢
    have hname := h name (by simp)
    have hlast : name.toList.getLast? ≠ some '/' := fun hlast =>
      hname.2.2.2 (List.mem_of_getLast? hlast)
    by_cases habove : above = []
    · subst habove
      simpa [ofSegments, Text.join] using hlast
    · rwa [ofSegments_concat habove, getLast?_append hname.1]

/-- A slash at the end is dropped. -/
theorem dropEndSlashes_slash (path : String) : dropEndSlashes (path ++ "/") = dropEndSlashes path := by
  simp [dropEndSlashes]

/-- Nothing else is dropped from the end. -/
theorem dropEndSlashes_eq_self (h : path.toList.getLast? ≠ some '/') :
    dropEndSlashes path = path := by
  rcases List.eq_nil_or_concat path.toList with hnil | ⟨front, c, hc⟩
  · obtain rfl := String.toList_eq_nil_iff.1 hnil
    rfl
  · rw [List.concat_eq_append] at hc
    have hne : c ≠ '/' := by simpa [hc] using h
    have hdrop : path.toList.reverse.dropWhile (· = '/') = path.toList.reverse := by
      simp [hc, hne]
    rw [dropEndSlashes, hdrop, List.reverse_reverse, String.ofList_toList]

/-- What stands before the slashes at the end stays. -/
theorem dropEndSlashes_append (h : path.toList.getLast? ≠ some '/') (tail : String) :
    dropEndSlashes (path ++ tail) = path ++ dropEndSlashes tail := by
  have hpath := dropEndSlashes_eq_self h
  rw [← String.toList_inj] at hpath ⊢
  simp only [dropEndSlashes, String.toList_ofList, String.toList_append, List.reverse_append,
    List.dropWhile_append] at hpath ⊢
  split
  next hempty => simp [hpath, List.isEmpty_iff.1 hempty]
  next => simp

/-- The first character stays, unless there are slashes only. -/
theorem head?_dropEndSlashes (h : path.toList.all (· = '/') = false) :
    (dropEndSlashes path).toList.head? = path.toList.head? := by
  cases hcs : path.toList with
  | nil => simp [hcs] at h
  | cons c cs =>
    rw [dropEndSlashes, hcs, String.toList_ofList, List.head?_reverse, List.reverse_cons,
      List.dropWhile_append]
    split
    next hempty =>
      have hslashes : ∀ d ∈ cs, d = '/' := by simpa [List.dropWhile_eq_nil_iff] using hempty
      have hc : c ≠ '/' := by
        rintro rfl
        obtain ⟨d, hd, hne⟩ : ∃ d ∈ cs, d ≠ '/' := by simpa [hcs] using h
        exact hne (hslashes d hd)
      simp [hc]
    next => simp

/-- What one slash at the end does not change, all of them do not. -/
theorem apply_dropEndSlashes {α : Type} {f : String → α} (hslash : ∀ path, f (path ++ "/") = f path)
    (path : String) : f (dropEndSlashes path) = f path := by
  obtain ⟨s, rfl⟩ : ∃ s, path = String.ofList s := ⟨path.toList, by simp⟩
  induction s using List.reverseRecOn with
  | nil => rfl
  | append_singleton s c ih =>
    by_cases hc : c = '/'
    · subst hc
      have hend : String.ofList (s ++ ['/']) = String.ofList s ++ "/" := by simp
      rw [hend, dropEndSlashes_slash, ih, hslash]
    · rw [dropEndSlashes_eq_self (by simpa using hc)]

/-- Slashes at the end lead nowhere. -/
theorem foldl_segments_dropEndSlashes (path : String) (here : List String) :
    (segments (dropEndSlashes path)).foldl descend here = (segments path).foldl descend here := by
  refine apply_dropEndSlashes (f := fun path => (segments path).foldl descend here) ?_ path
  intro path
  have hsegments := segments_append_slash path ""
  rw [String.append_empty] at hsegments
  rw [hsegments, List.foldl_append]
  rfl

/-- A path is cut behind its last slash. -/
theorem splitLast_append {front : String} (hname : '/' ∉ name.toList)
    (hfront : front = "" ∨ front.toList.getLast? = some '/') : splitLast (front ++ name) =
      (if front.toList.all (· = '/') then front else dropEndSlashes front, name) := by
  have hrun : Text.IsRun (· ≠ '/') name.toList.reverse front.toList.reverse := by
    refine ⟨fun c hc => ?_, fun c hc => ?_⟩
    · simpa using ne_of_mem_of_not_mem (List.mem_reverse.1 hc) hname
    · rcases hfront with rfl | hfront
      · simp at hc
      · rw [List.head?_reverse, hfront, Option.mem_some] at hc
        simp [← hc]
  simp only [splitLast, String.toList_append, List.reverse_append, hrun.takeWhile_append,
    List.reverse_reverse, String.ofList_toList, List.length_append, Nat.add_sub_cancel,
    List.take_left']

/-- Every path is cut behind its last slash. -/
theorem exists_front (path : String) : ∃ front name, path = front ++ name ∧ '/' ∉ name.toList ∧
    (front = "" ∨ front.toList.getLast? = some '/') := by
  have hrun := Text.isRun_takeWhile (· ≠ '/') path.toList.reverse
  have hsplit := List.takeWhile_append_dropWhile (p := (· ≠ '/')) (l := path.toList.reverse)
  generalize path.toList.reverse.takeWhile (· ≠ '/') = run at hrun hsplit
  generalize path.toList.reverse.dropWhile (· ≠ '/') = rest at hrun hsplit
  refine ⟨String.ofList rest.reverse, String.ofList run.reverse, ?_, fun hmem => ?_, ?_⟩
  · have hpath := congrArg List.reverse hsplit
    rw [List.reverse_reverse, List.reverse_append] at hpath
    simp [← String.toList_inj, ← hpath]
  · simpa using hrun.1 '/' (by simpa using hmem)
  · cases rest with
    | nil => exact .inl rfl
    | cons c rest =>
      have hc : c = '/' := by simpa using hrun.2 c rfl
      exact .inr (by simp [hc])

/-- The last piece of a path is its name. -/
theorem lastPiece_append {front : String} (hname : '/' ∉ name.toList)
    (hfront : front = "" ∨ front.toList.getLast? = some '/') :
    Text.lastPiece '/' (front ++ name).toList = name.toList := by
  rcases hfront with rfl | hfront
  · simp [Text.lastPiece, Text.split_of_not_mem hname]
  · obtain ⟨above, habove⟩ := List.getLast?_eq_some_iff.1 hfront
    simpa [habove] using Text.lastPiece_append hname above

/-- A path and its directory start at the same place. -/
theorem isAbsolute_directory (path : String) : isAbsolute (directory path) = isAbsolute path := by
  obtain ⟨front, name, rfl, hname, hfront⟩ := exists_front path
  rw [directory, splitLast_append hname hfront]
  cases hcs : front.toList with
  | nil =>
    obtain rfl := String.toList_eq_nil_iff.1 hcs
    have hhead : name.toList.head? ≠ some '/' := fun h => hname (List.mem_of_head? h)
    simpa [isAbsolute] using hhead
  | cons c cs =>
    simp only
    split
    next => simp [isAbsolute, hcs]
    next hall =>
      rw [isAbsolute, head?_dropEndSlashes (by rw [hcs]; simpa using hall)]
      simp [isAbsolute, hcs]

/-- The directory of a path is what stands before its last slash, without slashes at the end. -/
theorem directory_append_slash (hname : '/' ∉ name.toList)
    (hpath : path.toList.all (· = '/') = false) :
    directory (path ++ "/" ++ name) = dropEndSlashes path := by
  have hlast : (path ++ "/").toList.getLast? = some '/' := by simp
  have hall : (path ++ "/").toList.all (· = '/') = false := by
    rw [String.toList_append, List.all_append, hpath, Bool.false_and]
  rw [directory, splitLast_append hname (.inr hlast), hall]
  exact dropEndSlashes_slash path

/-- The directory of a normalised path from the root has all its names but the last. -/
theorem directory_mark_append (hmark : IsMark mark) (habove : ∀ name ∈ above, IsName name)
    (hname : '/' ∉ name.toList) :
    directory (mark ++ ofSegments (above ++ [name])) = mark ++ ofSegments above := by
  by_cases hnil : above = []
  · subst hnil
    have hfront : mark = "" ∨ mark.toList.getLast? = some '/' := by
      rcases hmark with rfl | rfl <;> simp
    have hall : mark.toList.all (· = '/') = true := by
      rcases hmark with rfl | rfl <;> simp
    have hsingle : ofSegments ([] ++ [name]) = name := by simp [ofSegments, Text.join]
    have hnone : ofSegments [] = "" := rfl
    rw [hsingle, directory, splitLast_append hname hfront, if_pos hall, hnone, String.append_empty]
  · have hpath : mark ++ ofSegments (above ++ [name]) =
        mark ++ ofSegments above ++ "/" ++ name := by
      rw [ofSegments_concat hnil]
      simp only [String.append_assoc]
    obtain ⟨first, rest, rfl⟩ := List.exists_cons_of_ne_nil hnil
    have hne := ofSegments_ne_empty hnil habove
    have hlast : (mark ++ ofSegments (first :: rest)).toList.getLast? ≠ some '/' := by
      rw [getLast?_append hne]
      exact getLast?_ofSegments habove
    have hall : (mark ++ ofSegments (first :: rest)).toList.all (· = '/') = false := by
      obtain ⟨c, cs, hcs⟩ := List.exists_cons_of_ne_nil (mt String.toList_eq_nil_iff.1 hne)
      have hc : c ≠ '/' := by simpa [hcs] using head?_ofSegments_of_isName habove
      simp [hcs, hc]
    rw [hpath, directory_append_slash hname hall, dropEndSlashes_eq_self hlast]

/-! ## Names behind a target -/

/-- Joining a path with a relative one descends through the one and then through the other. -/
theorem foldl_segments_join_of_relative (base : String) (hpath : isAbsolute path = false)
    (here : List String) : (segments (join base path)).foldl descend here =
      (segments path).foldl descend ((segments base).foldl descend here) := by
  by_cases hbase : base = ""
  · subst hbase
    have hjoin : join "" path = path := by simp [join, hpath]
    rw [hjoin]
    rfl
  · exact foldl_segments_join hbase hpath here

/-- A relative name joined behind the directory of a target leads where it leads in the place of the
target's name, and what is joined is relative if the target is. -/
theorem foldl_segments_join_splitLast {front other : String} (hname : '/' ∉ name.toList)
    (hfront : front = "" ∨ front.toList.getLast? = some '/') (hother : isAbsolute other = false)
    (here : List String) : (segments (join (splitLast (front ++ name)).1 other)).foldl descend here =
      (segments (front ++ other)).foldl descend here := by
  rw [splitLast_append hname hfront, foldl_segments_join_of_relative _ hother]
  have hhead : (segments (if front.toList.all (· = '/') then front
      else dropEndSlashes front)).foldl descend here = (segments front).foldl descend here := by
    split
    · rfl
    · exact foldl_segments_dropEndSlashes front here
  rw [hhead]
  rcases hfront with rfl | hfront
  · simp [segments, Text.split, descend, isIdle]
  · obtain ⟨above, habove⟩ := List.getLast?_eq_some_iff.1 hfront
    obtain rfl : front = String.ofList above ++ "/" := by simp [← String.toList_inj, habove]
    have hsegments := segments_append_slash (String.ofList above) ""
    rw [String.append_empty] at hsegments
    rw [segments_append_slash, hsegments, List.foldl_append, List.foldl_append]
    rfl

/-- The name of a path is its last segment. -/
theorem exists_segments_splitLast (path : String) :
    ∃ above, segments path = above ++ [(splitLast path).2] := by
  obtain ⟨front, name, rfl, hname, hfront⟩ := exists_front path
  have hlast : segments name = [name] := by simp [segments, Text.split_of_not_mem hname]
  rw [splitLast_append hname hfront]
  rcases hfront with rfl | hfront
  · exact ⟨[], by simpa using hlast⟩
  · obtain ⟨above, habove⟩ := List.getLast?_eq_some_iff.1 hfront
    obtain rfl : front = String.ofList above ++ "/" := by simp [← String.toList_inj, habove]
    exact ⟨segments (String.ofList above), by rw [segments_append_slash, hlast]⟩

/-- The directory of a path leads where its segments lead without the last one. -/
theorem foldl_segments_directory (path : String) (here : List String) :
    (segments (directory path)).foldl descend here =
      (segments path).dropLast.foldl descend here := by
  obtain ⟨front, name, rfl, hname, hfront⟩ := exists_front path
  have hempty : isAbsolute "" = false := rfl
  have hjoin := foldl_segments_join_splitLast hname hfront hempty here
  rw [foldl_segments_join_of_relative _ hempty, foldl_segments_empty, String.append_empty] at hjoin
  have hlast : segments name = [name] := by simp [segments, Text.split_of_not_mem hname]
  rw [directory, hjoin]
  rcases hfront with rfl | hfront
  · rw [foldl_segments_empty, String.empty_append, hlast]
    rfl
  · obtain ⟨above, habove⟩ := List.getLast?_eq_some_iff.1 hfront
    obtain rfl : front = String.ofList above ++ "/" := by simp [← String.toList_inj, habove]
    have hsegments := segments_append_slash (String.ofList above) ""
    rw [String.append_empty] at hsegments
    rw [segments_append_slash, hlast, List.dropLast_concat, hsegments, List.foldl_append,
      foldl_segments_empty]

/-- What is joined behind the directory of a relative target is relative. -/
theorem isAbsolute_join_splitLast {front other : String} (hname : '/' ∉ name.toList)
    (hfront : front = "" ∨ front.toList.getLast? = some '/')
    (htarget : isAbsolute (front ++ name) = false) (hother : isAbsolute other = false) :
    isAbsolute (join (splitLast (front ++ name)).1 other) = false := by
  rw [splitLast_append hname hfront]
  cases hcs : front.toList with
  | nil =>
    obtain rfl := String.toList_eq_nil_iff.1 hcs
    simp [join, hother]
  | cons c cs =>
    have hc : c ≠ '/' := by
      rintro rfl
      simp [isAbsolute, hcs] at htarget
    have hall : (c :: cs).all (· = '/') = false := by simp [hc]
    have hhead : (dropEndSlashes front).toList.head? = some c := by
      rw [head?_dropEndSlashes (hcs ▸ hall), hcs, List.head?_cons]
    rw [if_neg (by simp [hall])]
    obtain ⟨t, ht⟩ := List.head?_eq_some_iff.1 hhead
    unfold join
    rw [if_neg (by simp [hother])]
    split <;> simp [isAbsolute, ht, hc]

/-! ## Slashes in a row -/

/-- A path that holds more than slashes is not empty. -/
theorem ne_empty_of_all (h : path.toList.all (· = '/') = false) : path ≠ "" := by
  rintro rfl
  simp at h

/-- What is put behind a path does not change where it starts. -/
theorem isAbsolute_append_of_ne_empty (h : path ≠ "") (tail : String) :
    isAbsolute (path ++ tail) = isAbsolute path := by
  obtain ⟨c, cs, hcs⟩ := List.exists_cons_of_ne_nil (mt String.toList_eq_nil_iff.1 h)
  simp [isAbsolute, hcs]

/-- What is put behind a path that holds more than slashes does not change its root. -/
theorem root_append (h : path.toList.all (· = '/') = false) (tail : String) :
    root (path ++ tail) = root path := by
  unfold root
  rw [String.toList_append]
  -- The root is told by three characters at most.
  match hcs : path.toList with
  | [] => simp [hcs] at h
  | [a] =>
    have ha : a ≠ '/' := by simpa [hcs] using h
    simp [ha]
  | [a, b] =>
    have hab : a = '/' → b ≠ '/' := by simpa [hcs] using h
    by_cases ha : a = '/'
    · simp [ha, hab ha]
    · simp [ha]
  | a :: b :: c :: rest =>
    by_cases ha : a = '/' <;> by_cases hb : b = '/' <;> by_cases hc : c = '/' <;> simp [ha, hb, hc]

/-- Two slashes in a row count as one behind a path that holds more than slashes. -/
theorem normalise_append_slash_slash (h : path.toList.all (· = '/') = false) (tail : String) :
    normalise (path ++ "/" ++ ("/" ++ tail)) = normalise (path ++ "/" ++ tail) := by
  have hne := ne_empty_of_all h
  have hsegments : segments (path ++ "/" ++ ("/" ++ tail)) =
      segments path ++ "" :: segments tail := by
    rw [segments_append_slash, segments_slash]
  unfold normalise
  rw [hsegments, segments_append_slash]
  simp only [String.append_assoc]
  rw [root_append h, root_append h, isAbsolute_append_of_ne_empty hne,
    isAbsolute_append_of_ne_empty hne]
  congr 1
  simp [normaliseSegments, normaliseStep, isIdle]

/-- No slash is left at the end. -/
theorem getLast?_dropEndSlashes (path : String) :
    (dropEndSlashes path).toList.getLast? ≠ some '/' := by
  intro h
  have hhead := List.head?_dropWhile_not (· = '/') path.toList.reverse
  simp only [dropEndSlashes, String.toList_ofList, List.getLast?_reverse] at h
  simp [h] at hhead

/-- The slashes in front of a name count as one. -/
theorem normalise_append_dropEndSlashes (base : String) {front : String}
    (hall : front.toList.all (· = '/') = false) (hlast : front.toList.getLast? = some '/')
    (tail : String) : normalise (base ++ (dropEndSlashes front ++ "/" ++ tail)) =
      normalise (base ++ (front ++ tail)) := by
  obtain ⟨s, rfl⟩ : ∃ s, front = String.ofList s := ⟨front.toList, by simp⟩
  -- Each slash at the end but the last is one more step.
  induction s using List.reverseRecOn with
  | nil => simp at hlast
  | append_singleton s c ih =>
    obtain rfl : c = '/' := by simpa using hlast
    have hfront : String.ofList (s ++ ['/']) = String.ofList s ++ "/" := by simp
    have hmore : (String.ofList s).toList.all (· = '/') = false := by simpa using hall
    rw [hfront, dropEndSlashes_slash]
    by_cases hslash : (String.ofList s).toList.getLast? = some '/'
    · obtain ⟨above, habove⟩ := List.getLast?_eq_some_iff.1 hslash
      have hs : String.ofList s = String.ofList above ++ "/" := by
        simpa [← String.toList_inj] using habove
      have hpath : (base ++ String.ofList above).toList.all (· = '/') = false := by
        have habove : (String.ofList above).toList.all (· = '/') = false := by
          simpa [hs] using hmore
        rw [String.toList_append, List.all_append, habove, Bool.and_false]
      have hcollapse := normalise_append_slash_slash hpath tail
      rw [ih hmore hslash, hs]
      simpa only [String.append_assoc] using hcollapse.symm
    · rw [dropEndSlashes_eq_self hslash]

/-- A name put behind the directory of its target again gives the target, up to slashes in a
row. -/
theorem normalise_join_splitLast (base target : String) :
    normalise (join base (join (splitLast target).1 (splitLast target).2)) =
      normalise (join base target) := by
  obtain ⟨front, name, rfl, hname, hfront⟩ := exists_front target
  have hrelative := isAbsolute_of_not_mem hname
  rw [splitLast_append hname hfront]
  split
  next =>
    have hjoin : join front name = front ++ name := by
      unfold join
      rw [if_neg (by simp [hrelative]), if_pos hfront]
    rw [hjoin]
  next hsome =>
    have hall : front.toList.all (· = '/') = false := by simpa using hsome
    have hlast := hfront.resolve_left (ne_empty_of_all hall)
    have hhead := head?_dropEndSlashes hall
    have hne : dropEndSlashes front ≠ "" := by
      intro hempty
      rw [hempty] at hhead
      exact ne_empty_of_all hall (String.toList_eq_nil_iff.1 (List.head?_eq_none_iff.1 hhead.symm))
    have hjoin : join (dropEndSlashes front) name = dropEndSlashes front ++ "/" ++ name := by
      unfold join
      rw [if_neg (by simp [hrelative]), if_neg (by simp [hne, getLast?_dropEndSlashes])]
    have hstart : isAbsolute (dropEndSlashes front ++ "/" ++ name) =
        isAbsolute (front ++ name) := by
      rw [String.append_assoc, isAbsolute_append_of_ne_empty hne, isAbsolute, hhead, ← isAbsolute,
        isAbsolute_append_of_ne_empty (ne_empty_of_all hall)]
    rw [hjoin]
    unfold join
    rw [hstart]
    split
    next => simpa using normalise_append_dropEndSlashes "" hall hlast name
    next =>
      split
      next => exact normalise_append_dropEndSlashes base hall hlast name
      next => exact normalise_append_dropEndSlashes (base ++ "/") hall hlast name

end StyleBundle.Path
