import StyleBundle.Proofs.Dependency.Closure
import StyleBundle.Proofs.Import.Grammar
import StyleBundle.Proofs.Import.Reached
import StyleBundle.Proofs.Path.Directory
import StyleBundle.Proofs.Text.Search

/-!
# Plain trees

A tree is plain if all its files are stylesheets of the braced dialect below one root, and no name of
a file starts with an underscore. A target without a dot then has one file at most that it can stand
for. Where it stands is told by the location of the importing file and the target alone: whatever
paths lead to the two, flattening links the locations of files.
-/

namespace StyleBundle

namespace Path

variable {mark root : String} {above below names : List String}

/-- Names joined behind names. -/
theorem ofSegments_append (habove : above ≠ []) (hbelow : below ≠ []) :
    ofSegments (above ++ below) = ofSegments above ++ "/" ++ ofSegments below := by
  have hjoin : ∀ pieces : List (List Char), pieces ≠ [] → ∀ more : List (List Char), more ≠ [] →
      Text.join '/' (pieces ++ more) = Text.join '/' pieces ++ '/' :: Text.join '/' more := by
    intro pieces hpieces more hmore
    obtain ⟨next, rest, rfl⟩ := List.exists_cons_of_ne_nil hmore
    induction pieces with
    | nil => exact absurd rfl hpieces
    | cons piece pieces ih =>
      cases pieces with
      | nil => rfl
      | cons second pieces =>
        have h := ih (by simp)
        simp only [List.cons_append, Text.join] at h ⊢
        simp [h]
  simp [← String.toList_inj, ofSegments,
    hjoin (above.map String.toList) (by simpa using habove) (below.map String.toList)
      (by simpa using hbelow)]

/-- The segments of names behind slashes. -/
theorem segments_mark_append (hmark : IsMark mark) (hne : names ≠ [])
    (hnames : ∀ name ∈ names, IsName name) :
    segments (mark ++ ofSegments names) = (segments mark).dropLast ++ names := by
  have hsegments := segments_ofSegments hne fun name hname => (hnames name hname).2.2.2
  rcases hmark with rfl | rfl
  · rw [segments_slash, hsegments]
    rfl
  · have hslashes : "//" ++ ofSegments names = "/" ++ ("/" ++ ofSegments names) := by
      simp [← String.toList_inj]
    rw [hslashes, segments_slash, segments_slash, hsegments]
    rfl

/-- Names behind slashes are put together again. -/
theorem ofSegments_mark_append (hmark : IsMark mark) (hne : names ≠ []) :
    ofSegments ((segments mark).dropLast ++ names) = mark ++ ofSegments names := by
  obtain ⟨first, rest, rfl⟩ := List.exists_cons_of_ne_nil hne
  have hone : (segments "/").dropLast = [""] := rfl
  have htwo : (segments "//").dropLast = ["", ""] := rfl
  rcases hmark with rfl | rfl
  · rw [hone]
    simp [ofSegments, Text.join]
  · rw [htwo]
    simp [← String.toList_inj, ofSegments, Text.join]

end Path

namespace Import

open StyleBundle.Path (IsMark IsName)

variable {d : Disk} {root path target mark name base : String} {above below steps : List String}

/-! ## Below the root -/

/-- In a row of names behind one slash there are no two slashes. -/
theorem replaceFirst_slashes (hne : below ≠ []) (hbelow : ∀ name ∈ below, IsName name) :
    Text.replaceFirst "//".toList [] ("/" ++ Path.ofSegments below).toList =
      ("/" ++ Path.ofSegments below).toList := by
  cases hcut : Text.cut? "//".toList ("/" ++ Path.ofSegments below).toList with
  | none => rw [Text.replaceFirst, hcut]
  | some parts =>
    obtain ⟨before, behind⟩ := parts
    have hsplit := Text.eq_append_of_cut? hcut
    have hpath : "/" ++ Path.ofSegments below =
        String.ofList before ++ "/" ++ ("/" ++ String.ofList behind) := by
      simp [← String.toList_inj, hsplit]
    -- The empty segment between the two slashes would be one of the names.
    have hsegments := congrArg Path.segments hpath
    rw [Path.segments_slash, Path.segments_append_slash, Path.segments_slash,
      Path.segments_ofSegments hne fun name hname => (hbelow name hname).2.2.2] at hsegments
    obtain ⟨first, rest, hfirst⟩ :=
      List.exists_cons_of_ne_nil (l := Path.segments (String.ofList before))
        (by simp [Path.segments, Text.split_ne_nil])
    rw [hfirst, List.cons_append, List.cons.injEq] at hsegments
    have hmem : "" ∈ below := by simp [hsegments.2]
    exact absurd rfl (hbelow "" hmem).1

/-- What a directory's text keeps without the root's text leads from the root to the directory. -/
theorem foldl_segments_belowRoot (hroot : Path.isAbsolute root = true)
    (hnormalised : Path.normalise root = root) (hmark : IsMark mark)
    (hsame : (Path.segments root).foldl Path.descend [] ≠ [] → mark = Path.root root)
    (hbelow : ∀ name ∈ below, IsName name) (hname : IsName name) :
    (Path.segments (root ++ "/" ++ belowRoot root (Path.segments (mark ++ Path.ofSegments
      ((Path.segments root).foldl Path.descend [] ++ below ++ [name]))).dropLast)).foldl
        Path.descend [] = (Path.segments root).foldl Path.descend [] ++ below := by
  have hroots := Path.isName_of_mem_foldl root
  have heq := Path.eq_root_append hroot hnormalised
  have hrootMark := Path.isMark_root hroot
  generalize hplace : (Path.segments root).foldl Path.descend [] = place at hsame hroots heq ⊢
  have hall : ∀ step ∈ place ++ below ++ [name], IsName step := by
    simpa [or_imp, forall_and, hname] using ⟨hroots, hbelow⟩
  rw [Path.segments_mark_append hmark (by simp) hall, ← List.append_assoc,
    List.dropLast_concat, Path.segments_append_slash, List.foldl_append, hplace, belowRoot]
  by_cases hplaces : place = []
  · -- The root is the top of the disk, and its text is one or two of the slashes in front.
    subst hplaces
    have hempty : Path.ofSegments [] = "" := rfl
    rw [hempty, String.append_empty] at heq
    rw [List.nil_append]
    by_cases hnone : below = []
    · subst hnone
      rw [← heq] at hrootMark
      rcases hrootMark with rfl | rfl <;> rcases hmark with rfl | rfl <;> decide
    · have hjoined := Path.segments_ofSegments hnone fun name hname => (hbelow name hname).2.2.2
      have hbare : (Path.segments (Path.ofSegments below)).foldl Path.descend [] = below := by
        rw [hjoined]
        simpa using Path.foldl_descend_of_isName hbelow []
      have hslash := Path.foldl_segments_mark_append (.inl rfl) hbelow []
      rw [List.nil_append] at hslash
      rw [Path.ofSegments_mark_append hmark hnone]
      rw [← heq] at hrootMark
      rcases hrootMark with rfl | rfl <;> rcases hmark with rfl | rfl
      · rw [String.toList_append, Text.replaceFirst_append, String.ofList_toList, hbare]
      · have htwo : ("//" ++ Path.ofSegments below).toList =
            "/".toList ++ ("/" ++ Path.ofSegments below).toList := by simp
        rw [htwo, Text.replaceFirst_append, String.ofList_toList, hslash]
      · rw [replaceFirst_slashes hnone hbelow, String.ofList_toList, hslash]
      · rw [String.toList_append, Text.replaceFirst_append, String.ofList_toList, hbare]
  · obtain rfl := hsame hplaces
    have hne : place ++ below ≠ [] := by simp [hplaces]
    rw [Path.ofSegments_mark_append hmark hne]
    by_cases hnone : below = []
    · subst hnone
      have hself : Text.replaceFirst root.toList [] root.toList = [] := by
        simpa using Text.replaceFirst_append root.toList []
      rw [List.append_nil, ← heq, hself]
      rfl
    · have hsplit : (Path.root root ++ Path.ofSegments (place ++ below)).toList =
          root.toList ++ ("/" ++ Path.ofSegments below).toList := by
        rw [Path.ofSegments_append hplaces hnone]
        conv => rhs; rw [heq]
        simp
      rw [hsplit, Text.replaceFirst_append, String.ofList_toList]
      exact Path.foldl_segments_mark_append (.inl rfl) hbelow place

/-! ## Plain trees and plain targets -/

/-- All files stand below the root and are stylesheets of the braced dialect whose names do not
start with an underscore. -/
structure IsPlainTree (d : Disk) (root : String) : Prop where
  /-- The nodes make a tree. -/
  wellFormed : d.WellFormed
  /-- The root is a path from the top of the disk. -/
  absolute : Path.isAbsolute root = true
  /-- The root is normalised. -/
  normalised : Path.normalise root = root
  /-- What is a file is a stylesheet below the root. -/
  files : ∀ location bytes changed, d.node? location = some (.file bytes changed) →
    ∃ below stem, location = d.lexical root ++ below ++ [stem ++ bracedExtension] ∧
      (stem ++ bracedExtension).toList.head? ≠ some '_'

/-- A target that is seen from the importing file, is no address, and has no dot in its name. -/
def IsPlainTarget (target : String) : Prop :=
  Path.isAbsolute target = false ∧ Dependency.isExternal target = false ∧ hasDot target = false

/-- Where the file for a target stands, seen from a directory. -/
def goal (steps : Location) (target : String) : Location :=
  (Path.segments (target ++ bracedExtension)).foldl Path.descend steps

/-- A file with this text stands at a location. -/
def TextAt (d : Disk) (location : Location) (text : String) : Prop :=
  ∃ bytes changed, d.node? location = some (.file bytes changed) ∧ Disk.textOf bytes = .ok text

theorem TextAt.unique {location : Location} {text other : String} (h : TextAt d location text)
    (hother : TextAt d location other) : text = other := by
  obtain ⟨bytes, changed, hnode, htext⟩ := h
  obtain ⟨bytes', changed', hnode', htext'⟩ := hother
  rw [hnode, Option.some.injEq, Node.file.injEq] at hnode'
  obtain ⟨rfl, -⟩ := hnode'
  exact Except.ok.inj (htext.symm.trans htext')

/-- A path that text is read from leads to a file with that text. -/
theorem textAt_of_readText {text : String} (h : d.readText path = .ok text) :
    d.locate path = .ok (d.lexical path) ∧ TextAt d (d.lexical path) text := by
  obtain ⟨bytes, changed, hlocate, hnode, htext⟩ := Disk.readText_eq_ok_iff.1 h
  exact ⟨hlocate, bytes, changed, hnode, htext⟩

/-- A path of a row of names leads to the location of these names. -/
theorem lexical_of_mem_spellings {location : Location} (hnames : ∀ name ∈ location, IsName name)
    (h : path ∈ Disk.spellings location) : d.lexical path = location := by
  rw [Disk.lexical, Disk.start]
  rcases Disk.mem_spellings.1 h with rfl | rfl
  · have habsolute : Path.isAbsolute (Disk.pathOf location) = true := by
      simp [Path.isAbsolute, Disk.toList_pathOf]
    rw [if_pos habsolute]
    exact Disk.foldl_segments_pathOf hnames
  · have habsolute : Path.isAbsolute ("/" ++ Disk.pathOf location) = true := by
      simp [Path.isAbsolute]
    rw [if_pos habsolute, Path.segments_slash, List.foldl_cons, Path.descend_of_isIdle rfl]
    exact Disk.foldl_segments_pathOf hnames

theorem mark_append_mem_spellings (hmark : IsMark mark) (location : Location) :
    mark ++ Path.ofSegments location ∈ Disk.spellings location := by
  rw [Disk.mem_spellings, Disk.pathOf]
  rcases hmark with rfl | rfl
  · exact .inl rfl
  · right
    simp [← String.toList_inj]

/-- The name behind the last slash of a target is the last one on the way that it leads. -/
theorem exists_foldl_segments_front {front : String}
    (hfront : front = "" ∨ front.toList.getLast? = some '/') (steps : List String) :
    ∃ above, ∀ other, IsName other →
      (Path.segments (front ++ other)).foldl Path.descend steps = above ++ [other] := by
  rcases hfront with rfl | hfront
  · refine ⟨steps, fun other hother => ?_⟩
    rw [String.empty_append, Path.segments_of_isName hother]
    exact Path.descend_of_isName hother steps
  · obtain ⟨before, hbefore⟩ := List.getLast?_eq_some_iff.1 hfront
    obtain rfl : front = String.ofList before ++ "/" := by simp [← String.toList_inj, hbefore]
    refine ⟨(Path.segments (String.ofList before)).foldl Path.descend steps,
      fun other hother => ?_⟩
    rw [Path.segments_append_slash, Path.segments_of_isName hother, List.foldl_append]
    exact Path.descend_of_isName hother _

/-- A name with the extension of a dialect is a name. -/
theorem isName_append_extension {stem : String} (hstem : '/' ∉ stem.toList) :
    IsName (stem ++ bracedExtension) := by
  apply Path.isName_of_two_lt
  · simp [bracedExtension]
  · simpa [bracedExtension] using hstem

/-- The file for a target has a name with the extension. -/
theorem exists_goal_eq (steps : Location) (target : String) :
    ∃ above stem, '/' ∉ stem.toList ∧ goal steps target = above ++ [stem ++ bracedExtension] := by
  obtain ⟨front, stem, rfl, hstem, hfront⟩ := Path.exists_front target
  obtain ⟨above, habove⟩ := exists_foldl_segments_front hfront steps
  refine ⟨above, stem, hstem, ?_⟩
  rw [goal, String.append_assoc, habove _ (isName_append_extension hstem)]

theorem isName_of_mem_goal (hsteps : ∀ step ∈ steps, IsName step) :
    ∀ step ∈ goal steps target, IsName step :=
  Path.isName_of_mem_foldl_descend (fun _ => Path.not_mem_of_mem_segments) hsteps

/-! ## How flattening reads a plain tree -/

/-- Targets of the stylesheet at a path are read from a directory on. -/
def IsSeat (root path : String) (steps : Location) : Prop :=
  (Path.segments (root ++ "/" ++ belowRoot root (Path.segments path).dropLast)).foldl
    Path.descend [] = steps

/-- What marks the paths of targets: the slashes of the root, unless the root is the top of the disk.
-/
def IsMarkFor (root mark : String) : Prop :=
  IsMark mark ∧ ((Path.segments root).foldl Path.descend [] ≠ [] → mark = Path.root root)

/-- A target gets its extension and stays relative. -/
theorem isAbsolute_withExtension (extension : String) (hrelative : Path.isAbsolute target = false)
    (hne : target ≠ "") : Path.isAbsolute (withExtension extension target) = false := by
  obtain ⟨c, cs, hcs⟩ := List.exists_cons_of_ne_nil (mt String.toList_eq_nil_iff.1 hne)
  unfold withExtension
  split
  · exact hrelative
  · simpa [Path.isAbsolute, hcs] using hrelative

/-- What starts with a normalised root below the top of the disk starts with the root's slashes. -/
theorem root_append_of_normalised (hroot : Path.isAbsolute root = true)
    (hnormalised : Path.normalise root = root)
    (hplace : (Path.segments root).foldl Path.descend [] ≠ []) (tail : String) :
    Path.root (root ++ tail) = Path.root root := by
  have hnames := Path.isName_of_mem_foldl root
  have heq := Path.eq_root_append hroot hnormalised
  generalize (Path.segments root).foldl Path.descend [] = place at hplace hnames heq
  obtain ⟨first, rest, hfirst⟩ := List.exists_cons_of_ne_nil
    (mt String.toList_eq_nil_iff.1 (Path.ofSegments_ne_empty hplace hnames))
  have hhead := Path.head?_ofSegments_of_isName hnames
  have hsplit : root ++ tail = Path.root root ++ (Path.ofSegments place ++ tail) := by
    simpa only [String.append_assoc] using congrArg (· ++ tail) heq
  rw [hsplit]
  refine Path.root_mark_append (Path.isMark_root hroot) ?_
  simpa [hfirst] using hhead

/-- A relative target is read from a path of the place that it leads to. -/
theorem exists_mark_targetPath (extension : String) (hroot : Path.isAbsolute root = true)
    (hnormalised : Path.normalise root = root) (hseat : IsSeat root path steps)
    (hrelative : Path.isAbsolute target = false) (hne : target ≠ "") :
    ∃ mark, IsMarkFor root mark ∧ targetPath root extension path target = mark ++
      Path.ofSegments ((Path.segments (withExtension extension target)).foldl Path.descend steps) := by
  have hrelative' := isAbsolute_withExtension extension hrelative hne
  rw [targetPath, resolve, if_neg hne]
  simp only
  rw [if_neg (by simp [hrelative'])]
  generalize hfull : root ++ "/" ++ belowRoot root (Path.segments path).dropLast ++ "/" ++
    withExtension extension target = full
  have hstart : full = root ++ ("/" ++ belowRoot root (Path.segments path).dropLast ++ "/" ++
      withExtension extension target) := by
    simp only [← hfull, String.append_assoc]
  have habsolute : Path.isAbsolute full = true := by
    rw [hstart]
    exact Path.isAbsolute_append hroot _
  refine ⟨Path.root full, ⟨Path.isMark_root habsolute, fun hplace => ?_⟩, ?_⟩
  · rw [hstart]
    exact root_append_of_normalised hroot hnormalised hplace _
  · rw [Path.normalise_of_isAbsolute habsolute, ← hfull, Path.segments_append_slash,
      List.foldl_append, hseat]

/-- A plain target is read from a path of the place where its file stands. -/
theorem exists_targetPath (hroot : Path.isAbsolute root = true)
    (hnormalised : Path.normalise root = root) (hseat : IsSeat root path steps)
    (htarget : IsPlainTarget target) (hne : target ≠ "") :
    ∃ mark, IsMarkFor root mark ∧ targetPath root bracedExtension path target =
      mark ++ Path.ofSegments (goal steps target) := by
  obtain ⟨hrelative, -, hdot⟩ := htarget
  obtain ⟨mark, hmark, hpath⟩ := exists_mark_targetPath bracedExtension hroot
    hnormalised hseat hrelative hne
  refine ⟨mark, hmark, ?_⟩
  rw [hpath, goal, withExtension, hdot]
  rfl

/-- The counterpart of a path differs from it in the last name only. -/
theorem exists_counterpart_eq (base : String) (hname : IsName name) :
    ∃ other, IsName other ∧ counterpart (base ++ "/" ++ name) = base ++ "/" ++ other := by
  have hswap {stem old new : String} (hold : '/' ∉ old.toList) (hnew : '/' ∉ new.toList)
      (hlong : 2 < new.toList.length) (hpath : base ++ "/" ++ name = stem ++ old) :
      ∃ other, IsName other ∧ stem ++ new = base ++ "/" ++ other := by
    have hlist : base.toList ++ '/' :: name.toList = stem.toList ++ old.toList := by
      simpa using congrArg String.toList hpath
    obtain ⟨rest, hrest, hstem⟩ := Text.exists_of_append_eq_append hlist hold
    refine ⟨String.ofList rest ++ new, Path.isName_of_two_lt ?_ ?_, ?_⟩
    · simp only [String.toList_append, List.length_append]
      omega
    · have hslash : '/' ∉ rest := fun hmem => hname.2.2.2 (by simp [hrest, hmem])
      simpa using ⟨hslash, hnew⟩
    · simp [← String.toList_inj, hstem]
  unfold counterpart
  split
  next stem hstem =>
    exact hswap (by decide) (by decide) (by decide) (dropEnd?_eq_some_iff.1 hstem)
  next =>
    split
    next stem hstem =>
      exact hswap (by decide) (by decide) (by decide) (dropEnd?_eq_some_iff.1 hstem)
    next => exact ⟨name, hname, rfl⟩

/-- What is opened for a path stands in the same directory. -/
theorem exists_file_of_openedFor? {file : String} (habove : ∀ step ∈ above, IsName step)
    (hname : IsName name) (hpath : path ∈ Disk.spellings (above ++ [name]))
    (hopened : openedFor? d bracedExtension path = some file) :
    ∃ other text, d.locate file = .ok (above ++ [other]) ∧
      sourceText d bracedExtension path = .ok text ∧ TextAt d (above ++ [other]) text := by
  obtain ⟨base, rfl, hbase⟩ := Disk.exists_base_of_mem_spellings hpath
  have hlast : Text.lastPiece '/' (base ++ "/" ++ name).toList = name.toList := by
    simpa using Text.lastPiece_append hname.2.2.2 base.toList
  obtain ⟨entry, hentry, hread⟩ : ∃ entry, IsName entry ∧
      entryPath bracedExtension (base ++ "/" ++ name) = base ++ "/" ++ entry := by
    rw [entryPath, hlast]
    split
    · exact ⟨name, hname, rfl⟩
    · exact ⟨_, isName_append_extension hname.2.2.2, by rw [String.append_assoc]⟩
  obtain ⟨other, hother, hswapped⟩ := exists_counterpart_eq base hentry
  have hfile {last text : String} (hlast : IsName last)
      (htext : d.readText (base ++ "/" ++ last) = .ok text) :
      d.locate (base ++ "/" ++ last) = .ok (above ++ [last]) ∧ TextAt d (above ++ [last]) text := by
    have hnames : ∀ step ∈ above ++ [last], IsName step := by
      simpa [or_imp, forall_and, hlast] using habove
    have h := textAt_of_readText htext
    rwa [lexical_of_mem_spellings hnames (hbase last)] at h
  have hgoes := goes d (base ++ "/" ++ entry)
  rw [openedFor?, hread] at hopened
  rw [sourceText, hread]
  generalize read d (base ++ "/" ++ entry) = reading at hgoes hopened ⊢
  cases hgoes with
  | direct hdirect =>
    obtain rfl := Option.some.inj hopened
    obtain ⟨hlocate, hat⟩ := hfile hentry hdirect
    exact ⟨entry, _, hlocate, rfl, hat⟩
  | swapped _ hswap =>
    obtain rfl := Option.some.inj hopened
    rw [hswapped] at hswap ⊢
    obtain ⟨hlocate, hat⟩ := hfile hother hswap
    exact ⟨other, _, hlocate, rfl, hat⟩
  | unresolved | first | second => cases hopened

/-- What is found in the place of a stylesheet: the file that is opened, or nothing to open, and then
no text either. -/
inductive Outcome (d : Disk) (path : String) (location : Location) (text : String) : Prop
  /-- The file stands there. -/
  | found (opened : openedFor? d bracedExtension path = some path) (stands : TextAt d location text)
  /-- No file stands there. -/
  | missing (opened : openedFor? d bracedExtension path = none) (empty : text = "")
      (absent : ∀ bytes changed, d.node? location ≠ some (.file bytes changed))

/-- In a plain tree no file of the other dialect stands anywhere. -/
theorem IsPlainTree.not_textAt_indented (htree : IsPlainTree d root) {stem text : String} :
    ¬ TextAt d (above ++ [stem ++ indentedExtension]) text := by
  rintro ⟨bytes, changed, hnode, -⟩
  obtain ⟨below, stem', hlocation, -⟩ := htree.files _ bytes changed hnode
  have hlast := congrArg List.getLast? hlocation
  rw [List.getLast?_concat, List.getLast?_concat, Option.some.injEq] at hlast
  have hdrop := dropEnd?_braced_append_indented stem
  rw [dropEnd?_eq_some_iff.2 hlast] at hdrop
  cases hdrop

/-- In a plain tree the file for a target is opened, unless it is missing. No other dialect is there
to fall back to. -/
theorem IsPlainTree.outcome (htree : IsPlainTree d root) (hmark : IsMark mark) {stem : String}
    (habove : ∀ step ∈ above, IsName step) (hstem : '/' ∉ stem.toList) {text : String}
    (htext : sourceText d bracedExtension
      (mark ++ Path.ofSegments (above ++ [stem ++ bracedExtension])) = .ok text) :
    Outcome d (mark ++ Path.ofSegments (above ++ [stem ++ bracedExtension]))
      (above ++ [stem ++ bracedExtension]) text := by
  have hname := isName_append_extension hstem
  have hnames {last : String} (hlast : IsName last) : ∀ step ∈ above ++ [last], IsName step := by
    simpa [or_imp, forall_and, hlast] using habove
  have hspelling := mark_append_mem_spellings hmark (above ++ [stem ++ bracedExtension])
  have hlexical := lexical_of_mem_spellings (d := d) (hnames hname) hspelling
  obtain ⟨base, hpath, hbase⟩ := Disk.exists_base_of_mem_spellings hspelling
  generalize mark ++ Path.ofSegments (above ++ [stem ++ bracedExtension]) = path at *
  have hentry : entryPath bracedExtension path = path := by
    have hlast := Text.lastPiece_append hname.2.2.2 base.toList
    rw [entryPath, if_pos]
    right
    have hlist : path.toList = base.toList ++ '/' :: (stem ++ bracedExtension).toList := by
      simp [hpath]
    rw [hlist, hlast]
    simp [bracedExtension]
  have hcounterpart : counterpart path = base ++ "/" ++ (stem ++ indentedExtension) := by
    have hend : path = base ++ "/" ++ stem ++ bracedExtension := by
      rw [hpath, String.append_assoc, String.append_assoc]
      simp only [String.append_assoc]
    rw [counterpart, dropEnd?_eq_some_iff.2 hend]
    simp only [String.append_assoc]
  have hopened : openedFor? d bracedExtension path = (read d path).opened? path := by
    rw [openedFor?, hentry]
  rw [sourceText, hentry] at htext
  have hgoes := goes d path
  generalize read d path = reading at hgoes hopened htext
  cases hgoes with
  | direct hdirect =>
    obtain rfl := Except.ok.inj htext
    have hat := (textAt_of_readText hdirect).2
    rw [hlexical] at hat
    exact .found hopened hat
  | swapped _ hswapped =>
    have hother : IsName (stem ++ indentedExtension) := by
      apply Path.isName_of_two_lt
      · simp [indentedExtension]
      · simpa [indentedExtension] using hstem
    obtain ⟨-, hat⟩ := textAt_of_readText hswapped
    rw [hcounterpart, lexical_of_mem_spellings (hnames hother) (hbase _)] at hat
    exact absurd hat htree.not_textAt_indented
  | unresolved hmissing =>
    refine .missing hopened (Except.ok.inj htext).symm fun bytes changed hnode => ?_
    have hlocate := htree.wellFormed.locate_of_mem_spellings hnode hspelling
    have hfile : d.isFile path = true := Disk.isFile_iff.2 ⟨_, bytes, changed, hlocate, hnode⟩
    obtain ⟨_, hdirect⟩ := hmissing
    exact Dependency.readText_ne_refused hfile hdirect
  | first | second => cases htext

/-- Flattening opens the file at a location for a path, and reads its targets from there on. -/
structure Serves (d : Disk) (root path : String) (location : Location) : Prop where
  /-- The file is opened. -/
  opened : ∃ file, openedFor? d bracedExtension path = some file ∧ d.locate file = .ok location
  /-- Its text is read. -/
  text : ∃ text, sourceText d bracedExtension path = .ok text ∧ TextAt d location text
  /-- Targets are read from its directory on. -/
  seat : IsSeat root path location.dropLast

/-- One file links another if a statement of its text has a target that stands for the other. -/
def Links (d : Disk) (location other : Location) : Prop :=
  (∃ text, TextAt d location text ∧ ∃ statement ∈ statements text,
    other = goal location.dropLast statement.target) ∧
  ∃ bytes changed, d.node? other = some (.file bytes changed)

/-- A file below the root, on a path with the right slashes, is one to read targets from. -/
theorem IsPlainTree.isSeat (htree : IsPlainTree d root) (hmark : IsMarkFor root mark)
    {location : Location} {bytes : List UInt8} {changed : Stamp}
    (hnode : d.node? location = some (.file bytes changed)) :
    IsSeat root (mark ++ Path.ofSegments location) location.dropLast := by
  obtain ⟨below, stem, rfl, -⟩ := htree.files location bytes changed hnode
  have hnames : ∀ name ∈ d.lexical root ++ below ++ [stem ++ bracedExtension], IsName name :=
    fun name hname => (htree.wellFormed.names _ _ hnode name hname).1
  have hroot : d.lexical root = (Path.segments root).foldl Path.descend [] := by
    rw [Disk.lexical, Disk.start, if_pos htree.absolute]
  rw [List.dropLast_concat, IsSeat, hroot]
  refine foldl_segments_belowRoot htree.absolute htree.normalised hmark.1 hmark.2 ?_ ?_
  · exact fun name hname => hnames name (by simp [hname])
  · exact hnames _ (by simp)

/-- One step of flattening: the path for a target serves the file that the target stands for, or that
file is missing. -/
theorem Serves.step (htree : IsPlainTree d root) {location : Location}
    (h : Serves d root path location) (htarget : IsPlainTarget target) (hne : target ≠ "")
    {text : String}
    (htext : sourceText d bracedExtension (targetPath root bracedExtension path target) = .ok text) :
    ∃ mark, IsMarkFor root mark ∧ targetPath root bracedExtension path target =
        mark ++ Path.ofSegments (goal location.dropLast target) ∧
      Outcome d (targetPath root bracedExtension path target) (goal location.dropLast target) text ∧
      ∀ bytes changed, d.node? (goal location.dropLast target) = some (.file bytes changed) →
        Serves d root (targetPath root bracedExtension path target)
          (goal location.dropLast target) := by
  obtain ⟨mark, hmark, hpath⟩ :=
    exists_targetPath htree.absolute htree.normalised h.seat htarget hne
  have hsteps : ∀ step ∈ location.dropLast, IsName step := by
    rw [← h.seat]
    exact Path.isName_of_mem_foldl _
  have hgoal : ∀ step ∈ goal location.dropLast target, IsName step := isName_of_mem_goal hsteps
  obtain ⟨above, stem, hstem, heq⟩ := exists_goal_eq location.dropLast target
  have houtcome : Outcome d (targetPath root bracedExtension path target)
      (goal location.dropLast target) text := by
    rw [heq] at hpath hgoal ⊢
    rw [hpath] at htext ⊢
    exact htree.outcome hmark.1 (fun step hstep => hgoal step (by simp [hstep])) hstem htext
  refine ⟨mark, hmark, hpath, houtcome, fun bytes changed hnode => ?_⟩
  have hspelling := mark_append_mem_spellings hmark.1 (goal location.dropLast target)
  rw [← hpath] at hspelling
  have hlocate := htree.wellFormed.locate_of_mem_spellings hnode hspelling
  cases houtcome with
  | found hopened hat =>
    refine ⟨⟨_, hopened, hlocate⟩, ⟨text, htext, hat⟩, ?_⟩
    rw [hpath]
    exact htree.isSeat hmark hnode
  | missing _ _ hnone => exact absurd hnode (hnone bytes changed)

end Import

end StyleBundle
