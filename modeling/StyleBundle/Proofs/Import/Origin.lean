import StyleBundle.Proofs.Import.Cycle
import StyleBundle.Proofs.Import.PlainTree

/-!
# Where targets are seen from

A relative target is seen from the directory of the stylesheet that holds the statement. The way from
the root to that directory is what is left of the directory's text when the first occurrence of the
root's text is taken out. That goes well where the path starts with the root, and where it is
relative and the root's text does not occur in it. Elsewhere the target is looked for in a directory
below the root that has nothing to do with the stylesheet.
-/

namespace StyleBundle

namespace Path

variable {base root path tail : String}

/-- A slash beside another one, or behind everything, leads nowhere. -/
theorem foldl_segments_slash_append
    (h : tail = "" ∨ tail.toList.head? = some '/' ∨ base.toList.getLast? = some '/')
    (here : List String) : (segments (base ++ "/" ++ tail)).foldl descend here =
      (segments (base ++ tail)).foldl descend here := by
  rcases h with rfl | htail | hbase
  · rw [segments_append_slash, List.foldl_append, foldl_segments_empty, String.append_empty]
  · obtain ⟨rest, hrest⟩ := List.head?_eq_some_iff.1 htail
    obtain rfl : tail = "/" ++ String.ofList rest := by simp [← String.toList_inj, hrest]
    rw [segments_append_slash, segments_slash, ← String.append_assoc, segments_append_slash,
      List.foldl_append, List.foldl_append, List.foldl_cons, descend_of_isIdle rfl]
  · obtain ⟨front, hfront⟩ := List.getLast?_eq_some_iff.1 hbase
    obtain rfl : base = String.ofList front ++ "/" := by simp [← String.toList_inj, hfront]
    have hslash := segments_append_slash (String.ofList front) ""
    rw [String.append_empty] at hslash
    rw [segments_append_slash, segments_append_slash, hslash, List.foldl_append, List.foldl_append,
      foldl_segments_empty, List.foldl_append]

/-- A normalised path from the root that ends with a slash is nothing but slashes. -/
theorem isMark_of_getLast? (habsolute : isAbsolute path = true) (h : normalise path = path)
    (hlast : path.toList.getLast? = some '/') : IsMark path := by
  have hnames := isName_of_mem_foldl path
  have heq := eq_root_append habsolute h
  generalize (segments path).foldl descend [] = names at hnames heq
  by_cases hnone : names = []
  · subst hnone
    have hempty : ofSegments [] = "" := rfl
    rw [heq, hempty, String.append_empty]
    exact isMark_root habsolute
  · rw [heq, getLast?_append (ofSegments_ne_empty hnone hnames)] at hlast
    exact absurd hlast (getLast?_ofSegments hnames)

/-- A normalised path from the root that is not one slash or two holds more than slashes. -/
theorem all_eq_false_of_not_isMark (habsolute : isAbsolute path = true) (h : normalise path = path)
    (hmark : ¬ IsMark path) : path.toList.all (· = '/') = false := by
  refine Bool.eq_false_iff.2 fun hall => hmark (isMark_of_getLast? habsolute h ?_)
  have hne : path.toList ≠ [] := by
    intro hnil
    simp [isAbsolute, hnil] at habsolute
  have hslash := List.all_eq_true.1 hall _ (List.getLast_mem hne)
  rw [List.getLast?_eq_some_getLast hne, of_decide_eq_true hslash]

/-- A normalised path from the root that is not nothing but slashes leads somewhere. -/
theorem foldl_ne_nil_of_not_isMark (habsolute : isAbsolute path = true) (h : normalise path = path)
    (hmark : ¬ IsMark path) : (segments path).foldl descend [] ≠ [] := by
  intro hnone
  have hempty : ofSegments [] = "" := rfl
  have heq := eq_root_append habsolute h
  rw [hnone, hempty, String.append_empty] at heq
  exact hmark (heq ▸ isMark_root habsolute)

/-- The segments of a path put together again. -/
theorem ofSegments_segments (path : String) : ofSegments (segments path) = path := by
  rw [ofSegments, segments, List.map_map]
  simp [Function.comp_def, Text.join_split]

/-- A path from the root is its directory, a slash, and its last segment. -/
theorem exists_eq_append_last (h : isAbsolute path = true) :
    ∃ last, '/' ∉ last.toList ∧ path = ofSegments (segments path).dropLast ++ "/" ++ last := by
  obtain ⟨front, last, hpath⟩ := Import.exists_segments_eq path
  have hmem : last ∈ segments path := by simp [hpath]
  have hlast := not_mem_of_mem_segments hmem
  refine ⟨last, hlast, ?_⟩
  have hfront : front ≠ [] := by
    rintro rfl
    have hsame := ofSegments_segments path
    rw [hpath] at hsame
    have hhead : path.toList.head? = some '/' := by simpa [isAbsolute] using h
    rw [← hsame] at hhead
    exact hlast (List.mem_of_head? (by simpa [ofSegments, Text.join] using hhead))
  rw [hpath, List.dropLast_concat, ← ofSegments_concat hfront, ← hpath, ofSegments_segments]

end Path

namespace Import

open StyleBundle.Path (IsMark IsName)

variable {d : Disk} {root extension entry path target : String}

/-! ## Paths that fit the root -/

/-- The text of a path's directory. -/
def directoryText (path : String) : String := Path.ofSegments (Path.segments path).dropLast

/-- The root's text is found in the directory of a path where it stands for the root. -/
inductive FitsRoot (root path : String) : Prop
  /-- The path goes on from the root. -/
  | below (rest : String) (h : path = root ++ rest)
      (slash : rest.toList.head? = some '/' ∨ root.toList.getLast? = some '/')
  /-- The root's text does not occur in the directory, which is seen from the root. -/
  | apart (h : Text.contains root.toList (directoryText path).toList = false)
      (seen : Path.isAbsolute path = true → IsMark root)

/-- The directory of a path leads where its text does. -/
theorem foldl_segments_directoryText (path : String) (here : List String) :
    (Path.segments (directoryText path)).foldl Path.descend here =
      (Path.segments (Path.directory path)).foldl Path.descend here := by
  rw [Path.foldl_segments_directory, directoryText]
  by_cases hnone : (Path.segments path).dropLast = []
  · rw [hnone]
    exact Path.foldl_segments_empty here
  · rw [Path.segments_ofSegments hnone fun segment hsegment =>
      Path.not_mem_of_mem_segments (List.dropLast_subset _ hsegment)]

/-- A path that goes on from the root has a directory that does, unless the root is a slash or two
and the path a file there. -/
theorem exists_directoryText_eq (hroot : Path.isAbsolute root = true)
    (hnormalised : Path.normalise root = root) {rest : String} (hpath : path = root ++ rest)
    (hslash : rest.toList.head? = some '/' ∨ root.toList.getLast? = some '/') :
    (∃ tail, directoryText path = root ++ tail ∧
      (tail = "" ∨ tail.toList.head? = some '/' ∨ root.toList.getLast? = some '/')) ∨
      IsMark root ∧ root = directoryText path ++ "/" := by
  have habsolute : Path.isAbsolute path = true := hpath ▸ Path.isAbsolute_append hroot rest
  obtain ⟨last, hlast, hsplit⟩ := Path.exists_eq_append_last habsolute
  rw [← directoryText] at hsplit
  have hlist : (directoryText path).toList ++ '/' :: last.toList = root.toList ++ rest.toList := by
    have h := congrArg String.toList (hsplit.symm.trans hpath)
    simpa using h
  rcases List.append_eq_append_iff.1 hlist with ⟨more, hmore, hrest⟩ | ⟨more, hmore, hrest⟩
  · cases more with
    | nil =>
      refine .inl ⟨"", ?_, .inl rfl⟩
      rw [String.append_empty, ← String.toList_inj, hmore, List.append_nil]
    | cons c more =>
      obtain ⟨rfl, hlasts⟩ : '/' = c ∧ last.toList = more ++ rest.toList := by simpa using hrest
      have hend : root.toList.getLast? = some '/' := by
        refine hslash.resolve_left fun hhead => hlast ?_
        rw [hlasts]
        exact List.mem_append_right _ (List.mem_of_head? hhead)
      have hnone : more = [] := by
        by_contra hne
        obtain ⟨front, c, rfl⟩ := (List.eq_nil_or_concat more).resolve_left hne
        have hsplit : root.toList = (directoryText path).toList ++ '/' :: front ++ [c] := by
          simp [hmore]
        rw [hsplit, List.getLast?_concat, Option.some.injEq] at hend
        exact hlast (by simp [hlasts, hend])
      refine .inr ⟨Path.isMark_of_getLast? hroot hnormalised hend, ?_⟩
      rw [← String.toList_inj, hmore, hnone]
      simp
  · refine .inl ⟨String.ofList more, ?_, ?_⟩
    · simp [← String.toList_inj, hmore]
    · rcases hslash with hhead | hend
      · cases more with
        | nil => exact .inl rfl
        | cons c more =>
          rw [hrest] at hhead
          exact .inr (.inl (by simpa using hhead))
      · exact .inr (.inr hend)

/-- Targets are seen from the directory of a path that fits. -/
theorem FitsRoot.isSeat (h : FitsRoot root path) (hroot : Path.isAbsolute root = true)
    (hnormalised : Path.normalise root = root) : IsSeat root path
      ((Path.segments (Path.join root (Path.directory path))).foldl Path.descend []) := by
  rw [IsSeat, belowRoot, ← directoryText]
  have hdirectory : Path.isAbsolute (Path.directory path) = Path.isAbsolute path :=
    Path.isAbsolute_directory path
  cases h with
  | below rest hpath hslash =>
    have habsolute : Path.isAbsolute path = true := hpath ▸ Path.isAbsolute_append hroot rest
    rw [Path.join, if_pos (hdirectory.trans habsolute), ← foldl_segments_directoryText]
    rcases exists_directoryText_eq hroot hnormalised hpath hslash with
      ⟨tail, htail, hboundary⟩ | ⟨hmark, htop⟩
    · rw [htail, String.toList_append, Text.replaceFirst_append, String.ofList_toList]
      exact Path.foldl_segments_slash_append hboundary []
    · generalize directoryText path = dir at htop ⊢
      rcases hmark with rfl | rfl
      · obtain rfl : dir = "" := (String.append_left_inj "/").1 htop.symm
        decide
      · obtain rfl : dir = "/" := (String.append_left_inj "/").1 htop.symm
        decide
  | apart hnone hseen =>
    rw [Text.replaceFirst_of_contains_eq_false hnone, String.ofList_toList,
      Path.segments_append_slash, List.foldl_append, foldl_segments_directoryText]
    cases habsolute : Path.isAbsolute path with
    | false => rw [Path.foldl_segments_join_of_relative _ (hdirectory.trans habsolute)]
    | true =>
      have htop : (Path.segments root).foldl Path.descend [] = [] := by
        rcases hseen habsolute with rfl | rfl <;> rfl
      rw [htop, Path.join, if_pos (hdirectory.trans habsolute)]

/-- The directory of a path that fits starts with the root, unless the root is a slash or two. -/
theorem FitsRoot.exists_join_eq (h : FitsRoot root path) (hroot : Path.isAbsolute root = true)
    (hnormalised : Path.normalise root = root) (hmark : ¬ IsMark root) :
    ∃ tail, Path.join root (Path.directory path) = root ++ tail := by
  have hdirectory : Path.isAbsolute (Path.directory path) = Path.isAbsolute path :=
    Path.isAbsolute_directory path
  cases habsolute : Path.isAbsolute path with
  | false =>
    rw [Path.join, if_neg (by simp [hdirectory, habsolute])]
    split
    · exact ⟨_, rfl⟩
    · exact ⟨_, String.append_assoc⟩
  | true =>
    rw [Path.join, if_pos (hdirectory.trans habsolute)]
    cases h with
    | below rest hpath hslash =>
      obtain ⟨last, hlast, hsplit⟩ := Path.exists_eq_append_last habsolute
      obtain ⟨tail, htail, -⟩ := (exists_directoryText_eq hroot hnormalised hpath hslash).resolve_right
        fun htop => hmark htop.1
      rw [← directoryText] at hsplit
      have hend : root.toList.getLast? ≠ some '/' := fun hend =>
        hmark (Path.isMark_of_getLast? hroot hnormalised hend)
      have hall : (directoryText path).toList.all (· = '/') = false := by
        rw [htail, String.toList_append, List.all_append,
          Path.all_eq_false_of_not_isMark hroot hnormalised hmark, Bool.false_and]
      refine ⟨Path.dropEndSlashes tail, ?_⟩
      rw [hsplit, Path.directory_append_slash hlast hall, htail, Path.dropEndSlashes_append hend]
    | apart _ hseen => exact absurd (hseen habsolute) hmark

/-! ## Targets beside a stylesheet -/

/-- The path of a target that is seen from the directory of the stylesheet at a path, where a relative
one is seen from the root. -/
def besidePath (root extension path target : String) : String :=
  Path.absolute (Path.join root (Path.directory path)) (withExtension extension target)

/-- A relative target of a stylesheet whose path fits is read from the path beside the stylesheet,
which may have one slash more or less in front if the root is a slash or two. -/
theorem FitsRoot.targetPath_eq (h : FitsRoot root path) (extension : String)
    (hroot : Path.isAbsolute root = true) (hnormalised : Path.normalise root = root)
    (hrelative : Path.isAbsolute target = false) (hne : target ≠ "") :
    (∃ location, targetPath root extension path target ∈ Disk.spellings location ∧
        besidePath root extension path target ∈ Disk.spellings location) ∧
      (¬ IsMark root →
        targetPath root extension path target = besidePath root extension path target) := by
  have hseat := h.isSeat hroot hnormalised
  obtain ⟨mark, ⟨hmark, hsame⟩, htarget⟩ := exists_mark_targetPath extension hroot
    hnormalised hseat hrelative hne
  have hrelative' := isAbsolute_withExtension extension hrelative hne
  have hbase : Path.isAbsolute (Path.join root (Path.directory path)) = true :=
    Path.isAbsolute_join hroot
  have hfull : Path.isAbsolute (Path.join (Path.join root (Path.directory path))
      (withExtension extension target)) = true := Path.isAbsolute_join hbase
  have hbeside : besidePath root extension path target =
      Path.root (Path.join (Path.join root (Path.directory path)) (withExtension extension target)) ++
        Path.ofSegments ((Path.segments (withExtension extension target)).foldl Path.descend
          ((Path.segments (Path.join root (Path.directory path))).foldl Path.descend [])) := by
    rw [besidePath, Path.absolute, Path.normalise_of_isAbsolute hfull,
      Path.foldl_segments_join_of_relative _ hrelative']
  refine ⟨⟨_, htarget ▸ mark_append_mem_spellings hmark _,
    hbeside ▸ mark_append_mem_spellings (Path.isMark_root hfull) _⟩, fun hnot => ?_⟩
  have hplace := Path.foldl_ne_nil_of_not_isMark hroot hnormalised hnot
  obtain ⟨tail, htail⟩ := h.exists_join_eq hroot hnormalised hnot
  have hstart : Path.root (Path.join (Path.join root (Path.directory path))
      (withExtension extension target)) = Path.root root := by
    rw [Path.join, if_neg (by simp [hrelative']), htail]
    split
    · rw [String.append_assoc]
      exact root_append_of_normalised hroot hnormalised hplace _
    · rw [String.append_assoc, String.append_assoc]
      exact root_append_of_normalised hroot hnormalised hplace _
  rw [htarget, hbeside, hstart, hsame hplace]

/-- The last piece of a path is its last segment. -/
theorem lastPiece_of_segments {front : List String} {last : String}
    (h : Path.segments path = front ++ [last]) : Text.lastPiece '/' path.toList = last.toList := by
  have hpieces := congrArg (List.map String.toList) h
  have hsplit : Text.split '/' path.toList = front.map String.toList ++ [last.toList] := by
    simpa [Path.segments, Function.comp_def] using hpieces
  rw [Text.lastPiece, hsplit, List.getLast?_concat]
  rfl

/-- The last segment of a target with an extension has a dot. -/
theorem exists_segments_withExtension (hslash : '/' ∉ extension.toList)
    (hdot : '.' ∈ extension.toList) (target : String) : ∃ front last,
      Path.segments (withExtension extension target) = front ++ [last] ∧ '.' ∈ last.toList := by
  obtain ⟨front, last, hsegments⟩ := exists_segments_eq target
  unfold withExtension
  split
  next h =>
    refine ⟨front, last, hsegments, ?_⟩
    rw [hasDot, lastPiece_of_segments hsegments] at h
    exact of_decide_eq_true h
  next => exact ⟨front, last ++ extension, segments_append hsegments hslash, by simp [hdot]⟩

/-- The path of a relative target gets no second extension, unless the target names a directory as
the one that it stands in or as the one above. -/
theorem entryPath_targetPath (root path : String) (hslash : '/' ∉ extension.toList)
    (hdot : extension = "" ∨ '.' ∈ extension.toList) (hrelative : Path.isAbsolute target = false)
    (hne : target ≠ "")
    (hlast : ∀ last, (Path.segments (withExtension extension target)).getLast? = some last →
      last ≠ "." ∧ last ≠ "..") :
    entryPath extension (targetPath root extension path target) =
      targetPath root extension path target := by
  rcases hdot with rfl | hdot
  · unfold entryPath
    simp
  · obtain ⟨front, last, hsegments, hmem⟩ := exists_segments_withExtension hslash hdot target
    have hname : IsName last := by
      obtain ⟨hidle, hup⟩ := hlast last (by simp [hsegments])
      have hpiece : last ∈ Path.segments (withExtension extension target) := by simp [hsegments]
      refine ⟨?_, hidle, hup, Path.not_mem_of_mem_segments hpiece⟩
      rintro rfl
      simp at hmem
    have hrelative' := isAbsolute_withExtension extension hrelative hne
    have hfull : targetPath root extension path target = Path.normalise (root ++ "/" ++
        belowRoot root (Path.segments path).dropLast ++ "/" ++ withExtension extension target) := by
      rw [targetPath, resolve, if_neg hne]
      simp only
      rw [if_neg (by simp [hrelative'])]
    have hpieces : Path.segments (root ++ "/" ++ belowRoot root (Path.segments path).dropLast ++
        "/" ++ withExtension extension target) =
          Path.segments (root ++ "/" ++ belowRoot root (Path.segments path).dropLast) ++ front ++
            [last] := by
      rw [Path.segments_append_slash, hsegments, ← List.append_assoc]
    obtain ⟨above, habove⟩ := Path.exists_segments_normalise_of_isName hname hpieces
    rw [← hfull] at habove
    rw [entryPath, lastPiece_of_segments habove]
    exact if_pos (.inr hmem)

/-- A relative target is read from the path beside the stylesheet that holds it, and otherwise from
the counterpart of that path only. That goes for every stylesheet that flattening comes to and whose
path fits the root, and for every target that names a file. -/
theorem reads_beside (hroot : Path.isAbsolute root = true) (hnormalised : Path.normalise root = root)
    (hslash : '/' ∉ extension.toList) (hdot : extension = "" ∨ '.' ∈ extension.toList)
    (hreach : Relation.ReflTransGen (ComesTo d root extension) entry path)
    (hfits : FitsRoot root path) {before after : List Statement} {statement : Statement}
    (hstatements : statementsAt d extension path = before ++ statement :: after)
    (hbefore : ∀ earlier ∈ before,
      Completes d root extension (targetPath root extension path earlier.target))
    (hrelative : Path.isAbsolute statement.target = false)
    (hlast : ∀ last, (Path.segments (withExtension extension statement.target)).getLast? = some last →
      last ≠ "." ∧ last ≠ "..") :
    ∃ place, entryPath extension (targetPath root extension path statement.target) = place ∧
      (∃ location, place ∈ Disk.spellings location ∧
        besidePath root extension path statement.target ∈ Disk.spellings location) ∧
      (¬ IsMark root → place = besidePath root extension path statement.target) ∧
      (∀ file ∈ (read d place).tried place,
        file = place ∨ file = counterpart place ∧ IsMissing d place) ∧
      ∀ run, Ends d root extension entry run → (place, read d place) ∈ run.reads := by
  have hne : statement.target ≠ "" := by
    have hmem : statement ∈ statementsAt d extension path := by simp [hstatements]
    cases htext : sourceText d extension path with
    | error failure => simp [statementsAt_of_error htext] at hmem
    | ok text => exact target_ne_empty (statementsAt_of_ok htext ▸ hmem)
  have hentry := entryPath_targetPath root path hslash hdot hrelative hne hlast
  obtain ⟨hspelled, hsame⟩ := hfits.targetPath_eq extension hroot hnormalised hrelative hne
  refine ⟨_, hentry, hspelled, hsame, fun file hfile => eq_or_missing_of_mem_tried hfile,
    fun run hends => ?_⟩
  have hmem := hends.mem_reads (hreach.tail ⟨before, statement, after, hstatements, hbefore, rfl⟩)
  rwa [hentry] at hmem

/-- A stylesheet's neighbour is read from the path beside the stylesheet. -/
theorem reads_beside_twiceDisk : FitsRoot "/s" "/s/main.scss" ∧
    besidePath "/s" ".scss" "/s/main.scss" "a" = "/s/a.scss" ∧
    ∃ run, Ends twiceDisk "/s" ".scss" "/s/main.scss" run ∧
      ("/s/a.scss", read twiceDisk "/s/a.scss") ∈ run.reads := by
  have hfits : FitsRoot "/s" "/s/main.scss" := .below "/main.scss" rfl (.inl rfl)
  have hstatements : statementsAt twiceDisk ".scss" "/s/main.scss" =
      [] ++ ⟨"@import 'a';", "a"⟩ :: [⟨"@import \"a\";", "a"⟩] :=
    (statementsAt_of_ok sourceText_twiceDisk_main).trans statements_twiceImporting
  have hlast (last : String)
      (h : (Path.segments (withExtension ".scss" "a")).getLast? = some last) :
      last ≠ "." ∧ last ≠ ".." := by
    have hsegments : Path.segments (withExtension ".scss" "a") = ["a.scss"] := by decide
    obtain rfl : "a.scss" = last := by simpa [hsegments] using h
    decide
  have hmark : ¬ IsMark "/s" := by
    rintro (h | h) <;> exact absurd h (by decide)
  have hbeside : besidePath "/s" ".scss" "/s/main.scss" "a" = "/s/a.scss" := by decide +kernel
  have hreach : Relation.ReflTransGen (ComesTo twiceDisk "/s" ".scss") "/s/main.scss" "/s/main.scss" :=
    .refl
  obtain ⟨place, -, -, hplace, -, hread⟩ := reads_beside rfl (by decide) (by decide)
    (.inr (by decide)) hreach hfits hstatements (by simp) rfl hlast
  obtain rfl := (hplace hmark).trans hbeside
  have hneighbour : targetPath "/s" ".scss" "/s/main.scss" "a" = "/s/a.scss" := by decide +kernel
  have hleaf : Preorder twiceDisk "/s" ".scss" "/s/a.scss" ["/s/a.scss"] :=
    .of_nil ((statementsAt_of_ok sourceText_twiceDisk_neighbour).trans
      (scan_eq_nil_of_not_mem (by decide)))
  have horder : Preorder twiceDisk "/s" ".scss" "/s/main.scss" _ :=
    .of_statementsAt (fun _ => ["/s/a.scss"]) hstatements fun statement hstatement => by
      have htarget : statement.target = "a" := by
        revert statement
        decide
      rwa [htarget, hneighbour]
  obtain ⟨run, hends, -⟩ := horder.exists_ends
  exact ⟨hfits, hbeside, run, hends, hread run hends⟩

/-- A disk with a stylesheet below the root, and one that it imports and a neighbour of that one in a
directory beside the root whose name starts like the root's. -/
def strayDisk : Disk where
  nodes := [([], .directory ⟨0⟩), (["s"], .directory ⟨0⟩), (["s2"], .directory ⟨0⟩),
    (["s", "main.scss"], .file (Text.Utf8.encode "@import '../s2/x';".toList) ⟨0⟩),
    (["s2", "x.scss"], .file (Text.Utf8.encode "@import 'y';".toList) ⟨0⟩),
    (["s2", "y.scss"], .file (Text.Utf8.encode ".y \x7b\x7d".toList) ⟨0⟩)]
  home := ["s"]
  clock := ⟨1⟩

/-- The import of a stylesheet in a directory whose name starts like the root's goes astray: the
neighbour that it names is there and is not read. -/
theorem exists_stray_read :
    Path.isAbsolute "/s" = true ∧ Path.normalise "/s" = "/s" ∧
      besidePath "/s" ".scss" "/s2/x.scss" "y" = "/s2/y.scss" ∧
      strayDisk.readBytes "/s2/y.scss" = .ok (Text.Utf8.encode ".y \x7b\x7d".toList) ∧
      statementsAt strayDisk ".scss" "/s2/x.scss" = [⟨"@import 'y';", "y"⟩] ∧
      ∃ run out, Ends strayDisk "/s" ".scss" "/s/main.scss" run ∧ run.result = .ok out ∧
        run.reads.map Prod.fst = ["/s/main.scss", "/s2/x.scss", "/s/2/y.scss"] := by
  have hmain : sourceText strayDisk ".scss" "/s/main.scss" = .ok "@import '../s2/x';" :=
    sourceText_of_readBytes (by decide +kernel) (by decide)
  have hx : sourceText strayDisk ".scss" "/s2/x.scss" = .ok "@import 'y';" :=
    sourceText_of_readBytes (by decide +kernel) (by decide)
  have hy : sourceText strayDisk ".scss" "/s/2/y.scss" = .ok "" :=
    congrArg Reading.text (show read strayDisk "/s/2/y.scss" = .unresolved from
      read_of_missing (by decide +kernel) (by decide +kernel))
  have hmainStatements : statementsAt strayDisk ".scss" "/s/main.scss" =
      [⟨"@import '../s2/x';", "../s2/x"⟩] := by
    rw [statementsAt_of_ok hmain]
    exact statements_of_parse? [] (by decide) (by decide) (by decide)
  have hxStatements : statementsAt strayDisk ".scss" "/s2/x.scss" = [⟨"@import 'y';", "y"⟩] := by
    rw [statementsAt_of_ok hx]
    exact statements_of_parse? [] (by decide) (by decide) (by decide)
  have hstray : targetPath "/s" ".scss" "/s2/x.scss" "y" = "/s/2/y.scss" := by decide +kernel
  have hthere : targetPath "/s" ".scss" "/s/main.scss" "../s2/x" = "/s2/x.scss" := by decide +kernel
  have hyOrder : Preorder strayDisk "/s" ".scss" "/s/2/y.scss" ["/s/2/y.scss"] :=
    .of_nil (statementsAt_of_empty hy)
  have hxOrder : Preorder strayDisk "/s" ".scss" "/s2/x.scss" ["/s2/x.scss", "/s/2/y.scss"] :=
    .of_statementsAt (fun _ => ["/s/2/y.scss"]) hxStatements (by simpa [hstray] using hyOrder)
  have horder : Preorder strayDisk "/s" ".scss" "/s/main.scss"
      ["/s/main.scss", "/s2/x.scss", "/s/2/y.scss"] :=
    .of_statementsAt (fun _ => ["/s2/x.scss", "/s/2/y.scss"]) hmainStatements
      (by simpa [hthere] using hxOrder)
  have hfirst : firstFailure? strayDisk ["/s/main.scss", "/s2/x.scss", "/s/2/y.scss"] = none :=
    (firstFailure?_of_ok hmain).trans ((firstFailure?_of_ok hx).trans (firstFailure?_of_ok hy))
  obtain ⟨run, hends, hfollows⟩ := horder.exists_ends
  obtain ⟨out, hout⟩ := hfollows.exists_ok_iff.2 hfirst
  refine ⟨rfl, by decide, by decide +kernel, by decide +kernel, hxStatements, run, out, hends, hout,
    ?_⟩
  rw [hfollows.reads_eq, readsUpTo_of_none hfirst]
  rfl

end Import

end StyleBundle
