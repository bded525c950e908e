import StyleBundle.Proofs.Disk.Change
import StyleBundle.Proofs.Path.Child
import StyleBundle.Proofs.Text.Utf8

/-!
# The way to a path

Whether a path leads somewhere depends only on what kinds of nodes stand on its way. Making the
directories of a path makes directories on its way and nowhere else, and it succeeds as long as no
file and no name that is too long is in the way.
-/

namespace StyleBundle.Disk

variable {d d' d'' : Disk} {location place : Location} {path base name : String}

/-! ## Places on the way -/

/-- The places that a path leads through, the working directory or the root first. -/
def way (d : Disk) (path : String) : List Location := Path.way (d.start path) (Path.names path)

/-- Paths with the same root start at the same place. -/
theorem start_congr {other : String} (h : Path.root other = Path.root path) :
    d.start other = d.start path := by
  have hboth : Path.isAbsolute other = Path.isAbsolute path := by
    rw [Bool.eq_iff_iff, Path.isAbsolute_iff_root, Path.isAbsolute_iff_root, h]
  rw [start, start, hboth]

/-- The names of a path lead where its segments lead. -/
theorem lexical_eq_foldl_names (d : Disk) (path : String) :
    d.lexical path = (Path.names path).foldl Path.descend (d.start path) :=
  (Path.foldl_descend_filter _ _).symm

/-- A name behind a path leads one level down. -/
theorem lexical_child (d : Disk) (base : String) (hname : Path.IsName name) :
    d.lexical (Path.child base name) = d.lexical base ++ [name] := by
  rw [lexical_eq_foldl_names, lexical_eq_foldl_names, Path.names_child base hname,
    start_congr (Path.root_child base hname), List.foldl_append]
  exact Path.descend_of_isName hname _

/-- A name behind a path is one more place on the way. -/
theorem way_child (d : Disk) (base : String) (hname : Path.IsName name) :
    d.way (Path.child base name) = d.way base ++ [d.lexical base ++ [name]] := by
  rw [way, way, Path.names_child base hname, start_congr (Path.root_child base hname),
    Path.way_append_singleton, ← lexical_eq_foldl_names, Path.descend_of_isName hname]

/-- A path leads to the same place when it is tidied. -/
theorem lexical_tidy (d : Disk) (path : String) : d.lexical (Path.tidy path) = d.lexical path := by
  rw [lexical_eq_foldl_names, lexical_eq_foldl_names, Path.names_tidy,
    start_congr (Path.root_tidy path)]

/-- A path leads the same way when it is tidied. -/
theorem way_tidy (d : Disk) (path : String) : d.way (Path.tidy path) = d.way path := by
  rw [way, way, Path.names_tidy, start_congr (Path.root_tidy path)]

/-- The way to a path goes on from the way to its parent. -/
theorem mem_way_of_mem_way_parent (h : place ∈ d.way (Path.parent path)) : place ∈ d.way path := by
  rw [way, Path.names_parent, start_congr (Path.root_parent path)] at h
  rcases List.eq_nil_or_concat (Path.names path) with hnames | ⟨front, last, hnames⟩
  · rw [hnames] at h
    rw [way, hnames]
    exact h
  · rw [hnames, List.concat_eq_append, List.dropLast_concat] at h
    rw [way, hnames, List.concat_eq_append, Path.way_append_singleton]
    exact List.mem_append_left _ h

/-- A path leads to the last place on its way. -/
theorem lexical_mem_way (d : Disk) (path : String) : d.lexical path ∈ d.way path := by
  rw [lexical_eq_foldl_names]
  exact Path.foldl_mem_way _ _

theorem way_congr (hhome : d'.home = d.home) (path : String) : d'.way path = d.way path := by
  rw [way, way, start, start, hhome]

/-! ## Paths that fit -/

theorem length_encode_append (front back : String) :
    (Text.Utf8.encode (front ++ back).toList).length =
      (Text.Utf8.encode front.toList).length + (Text.Utf8.encode back.toList).length := by
  simp only [Text.Utf8.encode, String.toList_append, List.flatMap_append, List.length_append]

/-- A text that is not empty takes bytes. -/
theorem length_encode_pos {s : String} (hne : s ≠ "") :
    0 < (Text.Utf8.encode s.toList).length := by
  cases hs : s.toList with
  | nil => exact absurd (String.toList_eq_nil_iff.1 hs) hne
  | cons c rest =>
    obtain ⟨lead, tail, hlead, -⟩ :=
      Text.Utf8.step_encodeChar c (rest.flatMap Text.Utf8.encodeChar)
    rw [Text.Utf8.encode, List.flatMap_cons, hlead, List.length_cons]
    omega

/-- A path put together with one more name takes more bytes, or as many. -/
theorem length_assemble_le (root : String) (above : List String) (hname : name ≠ "") :
    (Text.Utf8.encode (Path.assemble root above).toList).length ≤
      (Text.Utf8.encode (Path.assemble root (above ++ [name])).toList).length := by
  have hpos := length_encode_pos hname
  have hsome : ¬ (root = "" ∧ above ++ [name] = []) := by simp
  rw [Path.assemble, Path.assemble, if_neg hsome, length_encode_append]
  by_cases hnil : above = []
  · subst hnil
    have hsingle : Path.ofSegments ([] ++ [name]) = name := by simp [Path.ofSegments, Text.join]
    have hdot : (Text.Utf8.encode ".".toList).length = 1 := rfl
    have hnone : Path.ofSegments [] = "" := rfl
    rw [hsingle]
    split
    · omega
    · rw [hnone, String.append_empty]
      omega
  · rw [if_neg fun h => hnil h.2, Path.ofSegments_concat hnil, length_encode_append,
      length_encode_append, length_encode_append]
    omega

section Limited

variable [Limits]

/-- The parent of a tidy path that fits does so too. -/
theorem Fits.parent (h : Fits path) (htidy : Path.tidy path = path) : Fits (Path.parent path) := by
  rcases List.eq_nil_or_concat (Path.names path) with hnil | ⟨above, last, hnames⟩
  · have hsame : Path.parent path = path := by
      rw [Path.parent, hnil, List.dropLast_nil, ← hnil]
      exact htidy
    rwa [hsame]
  · have hlast : last ∈ Path.names path := by simp [hnames]
    have hpath : Path.assemble (Path.root path) (above ++ [last]) = path := by
      rw [← List.concat_eq_append, ← hnames]
      exact htidy
    refine Within.mono h ?_
    rw [Path.parent, hnames, List.concat_eq_append, List.dropLast_concat]
    conv_rhs => rw [← hpath]
    exact length_assemble_le _ _ (Path.isStep_of_mem_names hlast).ne_empty

/-- The directory in which a name stands fits if the name does. -/
theorem Fits.of_child (hname : Path.IsName name) (h : Fits (Path.child base name)) :
    Fits (Path.tidy base) := by
  have hparent := h.parent (Path.tidy_child base hname)
  rwa [Path.parent_child base hname] at hparent

/-! ## Looks that fail -/

/-- A path without NUL that leads nowhere is refused. -/
theorem exists_refused_of_locate {fault : Fault} (hnul : '\x00' ∉ path.toList)
    (h : d.locate path = .error fault) : ∃ cause, fault = .refused cause path := by
  unfold locate at h
  rw [if_neg hnul] at h
  split at h
  next => exact ⟨_, (Except.error.inj h).symm⟩
  next =>
    split at h
    next =>
      split at h
      · cases h
      next cause _ => exact ⟨cause, (Except.error.inj h).symm⟩
    next => exact ⟨_, (Except.error.inj h).symm⟩

/-- A path with a NUL is found nowhere. -/
theorem find_of_nul (h : '\x00' ∈ path.toList) : d.find path = .error (.nul none) := by
  rw [find, locate, if_pos h]

/-- A look that fails meets a NUL or is refused. -/
theorem nul_or_refused_of_find {fault : Fault} (h : d.find path = .error fault) :
    fault = .nul none ∧ '\x00' ∈ path.toList ∨ ∃ cause, fault = .refused cause path := by
  by_cases hnul : '\x00' ∈ path.toList
  · rw [find_of_nul hnul] at h
    exact .inl ⟨(Except.error.inj h).symm, hnul⟩
  · refine .inr ?_
    unfold find at h
    split at h
    next hlocate =>
      obtain rfl := Except.error.inj h
      exact exists_refused_of_locate hnul hlocate
    next =>
      split at h
      · exact ⟨.missing, (Except.error.inj h).symm⟩
      · cases h

/-- A text that is not read is refused, has a NUL in its path, or is no UTF-8. -/
theorem refused_or_nul_or_undecodable {failure : Failure} (h : d.readText path = .error failure) :
    (∃ cause, failure = .disk (.refused cause path)) ∨
      (failure = .disk (.nul none) ∧ '\x00' ∈ path.toList) ∨
      ∃ bytes fault, failure = .undecodable fault ∧ d.readBytes path = .ok bytes ∧
        Text.Utf8.decode bytes = .error fault := by
  unfold readText at h
  cases hbytes : d.readBytes path with
  | ok bytes =>
    simp only [hbytes, textOf] at h
    cases hdecode : Text.Utf8.decode bytes with
    | ok s => simp [hdecode] at h
    | error fault =>
      simp only [hdecode] at h
      exact .inr (.inr ⟨bytes, fault, (Except.error.inj h).symm, rfl, hdecode⟩)
  | error fault =>
    rw [hbytes] at h
    obtain rfl := Except.error.inj h
    unfold readBytes at hbytes
    split at hbytes
    next other hfind =>
      obtain rfl := Except.error.inj hbytes
      obtain ⟨rfl, hnul⟩ | ⟨cause, rfl⟩ := nul_or_refused_of_find hfind
      · exact .inr (.inl ⟨rfl, hnul⟩)
      · exact .inl ⟨cause, rfl⟩
    · obtain rfl := Except.error.inj hbytes
      exact .inl ⟨.isDirectory, rfl⟩
    · cases hbytes

/-- A probe fails exactly if the path or a name on the way to it is too long. -/
theorem probe_eq_error {fault : Fault} : d.probe path = .error fault ↔
    fault = .refused .longName path ∧ d.find path = .error (.refused .longName path) := by
  unfold probe
  split
  next hfound => simp [hfound]
  next p hrefused =>
    obtain ⟨hnul, -⟩ | ⟨cause, hcause⟩ := nul_or_refused_of_find hrefused
    · cases hnul
    · cases hcause
      simp [hrefused, eq_comm]
  next other hother hlooked =>
    constructor
    · intro h
      cases h
    · rintro ⟨-, hlong⟩
      exact absurd (Except.error.inj (hlooked.symm.trans hlong)) (hother path)

/-- A probe that does not fail finds a file exactly if one is there. -/
theorem isFile_of_probe {node? : Option Node} (h : d.probe path = .ok node?) :
    d.isFile path = node?.any Node.isFile := by
  unfold probe at h
  unfold isFile find?
  split at h
  next hfound =>
    obtain rfl := Except.ok.inj h
    rw [hfound]
    rfl
  next => cases h
  next hfault =>
    obtain rfl := Except.ok.inj h
    rw [hfault]
    rfl

end Limited

/-! ## Kinds of nodes -/

/-- Whether it is a file that stands at a location, if anything does. -/
def kind? (d : Disk) (location : Location) : Option Bool := (d.node? location).map Node.isFile

theorem kind?_eq_some_false : d.kind? location = some false ↔ d.hasDirectory location = true := by
  unfold kind? hasDirectory
  cases d.node? location <;> simp

theorem kind?_eq_some_true : d.kind? location = some true ↔
    ∃ bytes changed, d.node? location = some (.file bytes changed) := by
  unfold kind?
  cases d.node? location with
  | none => simp
  | some node => cases node <;> simp [Node.isFile]

theorem kind?_eq_none : d.kind? location = none ↔ d.node? location = none := by
  simp [kind?]

theorem isSome_of_kind? {isFile : Bool} (h : d.kind? location = some isFile) :
    (d.node? location).isSome = true := by
  rw [← Option.isSome_map (f := Node.isFile), ← kind?, h]
  rfl

/-- A file that is there later was there before, unless it stands at a changed location. -/
theorem Evolves.kind?_of_file {changed : Location → Prop} (h : Evolves changed d d')
    (hplace : ¬ changed place) (hkind : d'.kind? place = some true) :
    d.kind? place = some true := by
  obtain ⟨bytes, stamp, hnode⟩ := kind?_eq_some_true.1 hkind
  exact kind?_eq_some_true.2 ⟨bytes, stamp, (h.files place hplace bytes stamp).1 hnode⟩

/-- What comes up is a directory, unless it stands at a changed location. -/
theorem Evolves.eq_false_of_new {changed : Location → Prop} (h : Evolves changed d d')
    (hplace : ¬ changed place) (hold : d.kind? place = none) {isFile : Bool}
    (hkind : d'.kind? place = some isFile) : isFile = false := by
  cases isFile with
  | false => rfl
  | true => cases hold.symm.trans (h.kind?_of_file hplace hkind)

/-- What is there stays of its kind, unless it stands at a changed location. -/
theorem Evolves.kind?_of_some {changed : Location → Prop} (h : Evolves changed d d')
    (hplace : ¬ changed place) {isFile : Bool} (hkind : d.kind? place = some isFile) :
    d'.kind? place = some isFile := by
  cases isFile with
  | false => exact kind?_eq_some_false.2 (h.directories place (kind?_eq_some_false.1 hkind))
  | true =>
    obtain ⟨bytes, stamp, hnode⟩ := kind?_eq_some_true.1 hkind
    exact kind?_eq_some_true.2 ⟨bytes, stamp, (h.files place hplace bytes stamp).2 hnode⟩

/-- A file can be written where a path leads somewhere and no directory stands. -/
theorem exists_writeText [Limits] (hlocate : d.locate path = .ok location)
    (hkind : d.kind? location ≠ some false) (text : String) :
    ∃ d', d.writeText path text = .ok d' := by
  unfold writeText writeBytes
  rw [hlocate]
  simp only
  split
  next changed hnode =>
    exact absurd (kind?_eq_some_false.2 (hasDirectory_iff.2 ⟨changed, hnode⟩)) hkind
  · exact ⟨_, rfl⟩

/-- Segments lead alike where the same kinds of nodes are on the way to the last of them. -/
theorem walk_congr {here : Location} {segments : List String}
    (h : ∀ place ∈ Path.way here segments.dropLast, d'.kind? place = d.kind? place) :
    d'.walk here segments = d.walk here segments := by
  induction segments generalizing here with
  | nil => rfl
  | cons segment rest ih =>
    have hhere : d'.kind? here = d.kind? here := by
      refine h here ?_
      cases rest with
      | nil => exact Path.mem_way_self ..
      | cons next more => exact Path.mem_way_self ..
    have hrest : d'.walk (Path.descend here segment) rest =
        d.walk (Path.descend here segment) rest := by
      cases rest with
      | nil => rfl
      | cons next more => exact ih fun place hplace => h place (List.mem_cons_of_mem _ hplace)
    rw [walk, walk]
    cases hnode : d.node? here with
    | none =>
      rw [kind?_eq_none.1 (hhere.trans (kind?_eq_none.2 hnode))]
    | some node =>
      cases node with
      | file bytes changed =>
        obtain ⟨_, _, hnode'⟩ :=
          kind?_eq_some_true.1 (hhere.trans (kind?_eq_some_true.2 ⟨_, _, hnode⟩))
        rw [hnode']
      | directory changed =>
        have hdirectory := kind?_eq_some_false.2 (hasDirectory_iff.2 ⟨_, hnode⟩)
        obtain ⟨_, hnode'⟩ := hasDirectory_iff.1 (kind?_eq_some_false.1 (hhere.trans hdirectory))
        rw [hnode']
        simp only
        rw [Path.descend] at hrest
        split
        next hidle => rwa [if_pos hidle] at hrest
        next hidle =>
          rw [if_neg hidle] at hrest
          split
          next hup => rwa [if_pos hup] at hrest
          next hup =>
            rw [if_neg hup] at hrest
            split
            · rfl
            · exact hrest

/-- The places that a path leads through on the way to its last segment. -/
def through (d : Disk) (path : String) : List Location :=
  Path.way (d.start path) (Path.segments path).dropLast

/-- A path leads alike where it leads through the same kinds of nodes. -/
theorem locate_congr_of_through [Limits] (hhome : d'.home = d.home)
    (h : ∀ place ∈ d.through path, d'.kind? place = d.kind? place) :
    d'.locate path = d.locate path := by
  have hwalk : d'.walk (d.start path) (Path.segments path) =
      d.walk (d.start path) (Path.segments path) := walk_congr h
  have hstart : d'.start path = d.start path := by rw [start, start, hhome]
  unfold locate
  rw [← start, ← start, hstart, hwalk]

/-- A path leads alike where the same kinds of nodes are on its way. -/
theorem locate_congr [Limits] (hhome : d'.home = d.home)
    (h : ∀ place ∈ d.way path, d'.kind? place = d.kind? place) :
    d'.locate path = d.locate path :=
  locate_congr_of_through hhome fun place hplace =>
    h place (Path.mem_way_filter.2 (Path.mem_way_of_dropLast hplace))

/-! ## Open ways -/

/-- Segments behind others are walked from where those lead. -/
theorem walk_append (d : Disk) (here : Location) (front rest : List String) :
    d.walk here (front ++ rest) = (d.walk here front).bind (d.walk · rest) := by
  induction front generalizing here with
  | nil => rfl
  | cons segment front ih =>
    rw [List.cons_append, walk, walk]
    cases d.node? here with
    | none => rfl
    | some node =>
      cases node with
      | file bytes changed => rfl
      | directory changed =>
        simp only
        split
        · exact ih _
        · split
          · exact ih _
          · split
            · rfl
            · exact ih _

/-- A walk along an open way arrives, or something is missing. -/
theorem walk_of_free {here : Location} {segments : List String}
    (hshort : ∀ segment ∈ segments, isLongName segment = false)
    (hfree : ∀ place ∈ Path.way here segments, d.kind? place ≠ some true) :
    d.walk here segments = .ok (segments.foldl Path.descend here) ∨
      d.walk here segments = .error .missing := by
  induction segments generalizing here with
  | nil => exact .inl rfl
  | cons segment rest ih =>
    have hrest := ih (fun s hs => hshort s (List.mem_cons_of_mem _ hs))
      fun place hplace => hfree place (List.mem_cons_of_mem _ hplace)
    rw [walk, List.foldl_cons]
    cases hnode : d.node? here with
    | none => exact .inr rfl
    | some node =>
      cases node with
      | file bytes changed =>
        exact absurd (kind?_eq_some_true.2 ⟨_, _, hnode⟩) (hfree here (Path.mem_way_self ..))
      | directory changed =>
        have hname := hshort segment (List.mem_cons_self ..)
        simp only [hname, Bool.false_eq_true, if_false]
        rw [Path.descend] at hrest ⊢
        split
        next hidle => rwa [if_pos hidle] at hrest
        next hidle =>
          rw [if_neg hidle] at hrest
          split
          next hup => rwa [if_pos hup] at hrest
          next hup => rwa [if_neg hup] at hrest

variable [Limits]

/-- A way without files and names that are too long, to a path that fits, so that nothing but
missing directories can keep the path from leading somewhere. -/
structure IsOpen (d : Disk) (path : String) : Prop where
  /-- The path holds no NUL. -/
  nul : '\x00' ∉ path.toList
  /-- The path is not too long. -/
  fits : Fits path
  /-- No name is too long. -/
  short : ∀ name ∈ Path.names path, isLongName name = false
  /-- No file is in the way. -/
  free : ∀ place ∈ d.way path, d.kind? place ≠ some true

namespace IsOpen

/-- A path with an open way leads somewhere, or something is missing. -/
theorem locate (h : d.IsOpen path) :
    d.locate path = .ok (d.lexical path) ∨ d.locate path = .error (.refused .missing path) := by
  have hshort : ∀ segment ∈ Path.segments path, isLongName segment = false := by
    intro segment hsegment
    by_cases hidle : Path.isIdle segment = true
    · simp only [Path.isIdle, Bool.or_eq_true, beq_iff_eq] at hidle
      rcases hidle with rfl | rfl <;> decide
    · exact h.short segment (List.mem_filter.2 ⟨hsegment, by simpa using hidle⟩)
  have hwalk := walk_of_free hshort fun place hplace => h.free place (Path.mem_way_filter.2 hplace)
  rw [start] at hwalk
  unfold Disk.locate
  rw [if_neg h.nul, if_pos h.fits]
  split
  next => exact .inr rfl
  next =>
    rcases hwalk with hwalk | hwalk
    · left
      rw [hwalk]
      rfl
    · right
      rw [hwalk]

/-- What stands at the end of an open way is a directory. -/
theorem hasDirectory (h : d.IsOpen path) {node : Node}
    (hnode : d.node? (d.lexical path) = some node) :
    d.hasDirectory (d.lexical path) = true := by
  have hfree := h.free _ (lexical_mem_way d path)
  cases node with
  | file bytes changed => exact absurd (kind?_eq_some_true.2 ⟨_, _, hnode⟩) hfree
  | directory changed => exact hasDirectory_iff.2 ⟨_, hnode⟩

/-- The way to the parent is open too. -/
theorem parent (h : d.IsOpen path) (htidy : Path.tidy path = path) :
    d.IsOpen (Path.parent path) where
  nul := mt (Path.mem_of_mem_parent (by decide) (by decide)) h.nul
  fits := h.fits.parent htidy
  short := by
    rw [Path.names_parent]
    exact fun name hname => h.short name (List.dropLast_subset _ hname)
  free place hplace := h.free place (mem_way_of_mem_way_parent hplace)

/-- The way stays open as long as no file comes up on it. -/
theorem of_evolves {changed : Location → Prop} (h : d.IsOpen path) (hevolves : Evolves changed d d')
    (hother : ∀ place ∈ d.way path, ¬ changed place) : d'.IsOpen path where
  nul := h.nul
  fits := h.fits
  short := h.short
  free place hplace hfile := by
    rw [way_congr hevolves.home] at hplace
    exact h.free place hplace (hevolves.kind?_of_file (hother place hplace) hfile)

end IsOpen

end StyleBundle.Disk
