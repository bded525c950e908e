import StyleBundle.Disk.Reading
import StyleBundle.Proofs.Disk.WellFormed
import StyleBundle.Proofs.Path.Normalise

/-!
# Spellings of a location

A location has two absolute spellings, with one leading slash and with two. On a well-formed disk
every path that leads somewhere is made absolute into one of them, and both lead back.
-/

namespace StyleBundle.Disk

variable {d : Disk} {location : Location} {path : String}

/-- The absolute paths of a location. -/
def spellings (location : Location) : List String := [pathOf location, "/" ++ pathOf location]

theorem mem_spellings :
    path ∈ spellings location ↔ path = pathOf location ∨ path = "/" ++ pathOf location := by
  simp [spellings]

/-- The path of a location starts at the root. -/
theorem toList_pathOf (location : Location) :
    (pathOf location).toList = '/' :: Text.join '/' (location.map String.toList) := by
  simp [pathOf, Path.ofSegments]

/-- The names of a location are the segments of its path, behind idle ones. -/
theorem foldl_segments_pathOf (h : ∀ name ∈ location, Path.IsName name) :
    (Path.segments (pathOf location)).foldl Path.descend [] = location := by
  rw [pathOf, Path.segments_slash, List.foldl_cons, Path.descend_of_isIdle rfl]
  cases location with
  | nil => rfl
  | cons name rest =>
    rw [Path.segments_ofSegments (by simp) fun n hn => (h n hn).2.2.2]
    simpa using Path.foldl_descend_of_isName h []

/-- Where a path starts that is seen from the working directory. -/
def start (d : Disk) (path : String) : Location := if Path.isAbsolute path then [] else d.home

/-- Where the segments of a path lead, whatever is there. -/
def lexical (d : Disk) (path : String) : Location :=
  (Path.segments path).foldl Path.descend (d.start path)

/-- Where segments lead depends on the working directory only. -/
theorem lexical_congr {d' : Disk} (hhome : d'.home = d.home) (path : String) :
    d'.lexical path = d.lexical path := by
  rw [lexical, lexical, start, start, hhome]

/-- A path that ends in a name leads to that name. -/
theorem exists_lexical_of_isName {name : String} (hname : Path.IsName name) {above : List String}
    (h : Path.segments path = above ++ [name]) : ∃ above', d.lexical path = above' ++ [name] := by
  refine ⟨above.foldl Path.descend (d.start path), ?_⟩
  rw [lexical, h, List.foldl_append, List.foldl_cons, List.foldl_nil,
    Path.descend_of_isName hname]

/-- Where nothing is bounded, any path is short enough. -/
theorem fits_unlimited (path : String) : Fits path := within_none _

section Limited

variable [Limits]

/-- A path that leads somewhere holds no NUL, is not empty, fits, and is walked to its end. -/
theorem locate_eq_ok_iff : d.locate path = .ok location ↔
    '\x00' ∉ path.toList ∧ path ≠ "" ∧ Fits path ∧
      d.walk (d.start path) (Path.segments path) = .ok location := by
  unfold locate start
  by_cases hnul : '\x00' ∈ path.toList
  · simp [hnul]
  · by_cases hempty : path = ""
    · simp [hempty]
    · by_cases hfits : Fits path
      · simp only [hnul, hempty, hfits, if_false, if_true, not_false_eq_true, true_and, ne_eq]
        cases hwalk : d.walk (if Path.isAbsolute path = true then [] else d.home)
          (Path.segments path) <;> simp
      · simp [hnul, hempty, hfits]

/-- A path leads where its segments lead. -/
theorem eq_lexical_of_locate (h : d.locate path = .ok location) : location = d.lexical path :=
  eq_foldl_of_walk (locate_eq_ok_iff.1 h).2.2.2

/-- What is found stands at a location to which the path leads. -/
theorem find_eq_ok_iff {node : Node} :
    d.find path = .ok node ↔ ∃ location, d.locate path = .ok location ∧
      d.node? location = some node := by
  unfold find
  cases d.locate path with
  | error fault => simp
  | ok location => cases hnode : d.node? location <;> simp [hnode]

/-- A file is found at a location to which the path leads. -/
theorem isFile_iff : d.isFile path = true ↔ ∃ location bytes changed,
    d.locate path = .ok location ∧ d.node? location = some (.file bytes changed) := by
  unfold isFile find?
  constructor
  · intro h
    cases hfind : d.find path with
    | error fault => simp [hfind, Except.toOption] at h
    | ok node =>
      obtain ⟨location, hlocate, hnode⟩ := find_eq_ok_iff.1 hfind
      cases node with
      | directory changed => simp [hfind, Except.toOption, Node.isFile] at h
      | file bytes changed => exact ⟨location, bytes, changed, hlocate, hnode⟩
  · rintro ⟨location, bytes, changed, hlocate, hnode⟩
    simp [find_eq_ok_iff.2 ⟨location, hlocate, hnode⟩, Except.toOption, Node.isFile]

/-- The bytes that are read are those of the file at a location to which the path leads. -/
theorem readBytes_eq_ok_iff {bytes : List UInt8} : d.readBytes path = .ok bytes ↔
    ∃ location changed, d.locate path = .ok location ∧
      d.node? location = some (.file bytes changed) := by
  unfold readBytes
  constructor
  · intro h
    cases hfind : d.find path with
    | error fault => simp [hfind] at h
    | ok node =>
      obtain ⟨location, hlocate, hnode⟩ := find_eq_ok_iff.1 hfind
      cases node with
      | directory changed => simp [hfind] at h
      | file b changed =>
        simp only [hfind, Except.ok.injEq] at h
        exact ⟨location, changed, hlocate, h ▸ hnode⟩
  · rintro ⟨location, changed, hlocate, hnode⟩
    simp [find_eq_ok_iff.2 ⟨location, hlocate, hnode⟩]

/-- A file holds text if its bytes do. -/
theorem readText_of_locate {bytes : List UInt8} {changed : Stamp}
    (hlocate : d.locate path = .ok location) (hnode : d.node? location = some (.file bytes changed)) :
    d.readText path = textOf bytes := by
  have hbytes : d.readBytes path = .ok bytes :=
    readBytes_eq_ok_iff.2 ⟨location, changed, hlocate, hnode⟩
  rw [readText, hbytes]

/-- The text that is read is that of a file where the path's segments lead. -/
theorem readText_eq_ok_iff {text : String} : d.readText path = .ok text ↔
    ∃ bytes changed, d.locate path = .ok (d.lexical path) ∧
      d.node? (d.lexical path) = some (.file bytes changed) ∧ textOf bytes = .ok text := by
  constructor
  · intro h
    cases hbytes : d.readBytes path with
    | error fault => simp [readText, hbytes] at h
    | ok bytes =>
      obtain ⟨location, changed, hlocate, hnode⟩ := readBytes_eq_ok_iff.1 hbytes
      obtain rfl := eq_lexical_of_locate hlocate
      exact ⟨bytes, changed, hlocate, hnode, readText_of_locate hlocate hnode ▸ h⟩
  · rintro ⟨bytes, changed, hlocate, hnode, htext⟩
    rw [readText_of_locate hlocate hnode, htext]

end Limited

namespace WellFormed

/-- There is a directory where a path starts. -/
theorem hasDirectory_start (hd : d.WellFormed) (path : String) :
    d.hasDirectory (d.start path) = true := by
  unfold start
  split
  · exact hd.root
  · exact hd.home

/-- The absolute spellings of a node's location hold no NUL. -/
theorem nul_not_mem_of_mem_spellings (hd : d.WellFormed) {node : Node}
    (hnode : d.node? location = some node) (hpath : path ∈ spellings location) :
    '\x00' ∉ path.toList := by
  have hnames := hd.names _ _ hnode
  have hnul : '\x00' ∉ (pathOf location).toList := by
    rw [toList_pathOf]
    intro h
    rcases List.mem_cons.1 h with h | h
    · simp at h
    · rcases Text.mem_join h with h | ⟨piece, hpiece, hc⟩
      · simp at h
      · obtain ⟨name, hname, rfl⟩ := List.mem_map.1 hpiece
        exact (hnames name hname).2.1 hc
  rcases mem_spellings.1 hpath with rfl | rfl
  · exact hnul
  · simpa using hnul

/-- Both absolute spellings of a node's location lead to it. -/
theorem locate_of_mem_spellings (hd : d.WellFormed) {node : Node}
    (hnode : d.node? location = some node) (hpath : path ∈ spellings location) :
    d.locate path = .ok location := by
  have hnames := hd.names _ _ hnode
  have hnul := hd.nul_not_mem_of_mem_spellings hnode hpath
  have habsolute : Path.isAbsolute (pathOf location) = true := by
    simp [Path.isAbsolute, toList_pathOf]
  have hwalk : d.walk [] (Path.segments (pathOf location)) = .ok location := by
    rw [pathOf, Path.segments_slash, walk_cons_of_isIdle hd.root rfl]
    cases location with
    | nil => exact walk_cons_of_isIdle hd.root rfl
    | cons name rest =>
      rw [Path.segments_ofSegments (by simp) fun n hn => (hnames n hn).1.2.2.2]
      simpa using hd.walk_append [] (by simpa using hnode)
  rcases mem_spellings.1 hpath with rfl | rfl
  · refine locate_eq_ok_iff.2
      ⟨hnul, ?_, fits_unlimited _, by simpa [start, habsolute] using hwalk⟩
    intro h
    simp [← String.toList_inj, toList_pathOf] at h
  · have habsolute' : Path.isAbsolute ("/" ++ pathOf location) = true := by simp [Path.isAbsolute]
    refine locate_eq_ok_iff.2 ⟨hnul, ?_, fits_unlimited _, ?_⟩
    · intro h
      simp [← String.toList_inj] at h
    · rw [start, if_pos habsolute', Path.segments_slash, walk_cons_of_isIdle hd.root rfl]
      exact hwalk

/-- A path is made absolute into a spelling of the location that its segments lead to. -/
theorem absolute_mem_spellings_lexical (hd : d.WellFormed) (path : String) :
    d.absolute path ∈ spellings (d.lexical path) := by
  have hhome : Path.isAbsolute d.homePath = true := by
    simp [Path.isAbsolute, homePath, toList_pathOf]
  have hfull : Path.isAbsolute (Path.join d.homePath path) = true := Path.isAbsolute_join hhome
  have hdescend :
      (Path.segments (Path.join d.homePath path)).foldl Path.descend [] = d.lexical path := by
    rw [lexical, start]
    split
    next habsolute => rw [Path.join, if_pos habsolute]
    next hrelative =>
      have hne : d.homePath ≠ "" := fun e => by simp [e, Path.isAbsolute] at hhome
      rw [Path.foldl_segments_join hne (by simpa using hrelative), homePath,
        foldl_segments_pathOf fun name hname => (hd.home_names name hname).1]
  rw [absolute, Path.absolute, Path.normalise_of_isAbsolute hfull, hdescend, mem_spellings]
  rcases Path.root_of_isAbsolute hfull with hr | hr
  · simp [pathOf, hr]
  · right
    simp [← String.toList_inj, pathOf, hr]

/-- A path that leads somewhere is made absolute into a spelling of that location. -/
theorem absolute_mem_spellings [Limits] (hd : d.WellFormed) (h : d.locate path = .ok location) :
    d.absolute path ∈ spellings location := by
  rw [eq_lexical_of_locate h]
  exact absolute_mem_spellings_lexical hd path

/-- The absolute spellings of a node's location are absolute already. -/
theorem absolute_eq_self (hd : d.WellFormed) {node : Node} (hnode : d.node? location = some node)
    (hpath : path ∈ spellings location) : d.absolute path = path := by
  have hnames : ∀ name ∈ location, Path.IsName name := fun n hn => (hd.names _ _ hnode n hn).1
  have hdescend := foldl_segments_pathOf hnames
  have habsolute : Path.isAbsolute path = true := by
    rcases mem_spellings.1 hpath with rfl | rfl <;> simp [Path.isAbsolute, toList_pathOf]
  rw [absolute, Path.absolute, Path.join, if_pos habsolute,
    Path.normalise_of_isAbsolute habsolute]
  rcases mem_spellings.1 hpath with rfl | rfl
  · rw [hdescend, pathOf, Path.root_slash hnames]
  · rw [Path.segments_slash, List.foldl_cons, Path.descend_of_isIdle rfl, hdescend, pathOf,
      Path.root_twoSlashes hnames]
    simp [← String.toList_inj]

/-- The absolute spellings of a node's location are tidy already. -/
theorem tidy_eq_self (hd : d.WellFormed) {node : Node} (hnode : d.node? location = some node)
    (hpath : path ∈ spellings location) : Path.tidy path = path := by
  have hnames : ∀ name ∈ location, Path.IsName name := fun n hn => (hd.names _ _ hnode n hn).1
  have hfilter : (Path.segments (Path.ofSegments location)).filter (!Path.isIdle ·) = location := by
    cases location with
    | nil => rfl
    | cons name rest =>
      rw [Path.segments_ofSegments (by simp) fun n hn => (hnames n hn).2.2.2, List.filter_eq_self]
      intro n hn
      simp [(hnames n hn).not_isIdle]
  have hidle : Path.isIdle "" = true := rfl
  rcases mem_spellings.1 hpath with rfl | rfl
  · rw [Path.tidy, pathOf, Path.root_slash hnames, Path.names, Path.segments_slash,
      List.filter_cons_of_neg (by simp [hidle]), hfilter, Path.assemble, if_neg (by simp)]
  · rw [Path.tidy, pathOf, Path.root_twoSlashes hnames, Path.names, Path.segments_slash,
      Path.segments_slash, List.filter_cons_of_neg (by simp [hidle]),
      List.filter_cons_of_neg (by simp [hidle]), hfilter, Path.assemble, if_neg (by simp)]
    simp [← String.toList_inj]

/-- Idle segments and steps up are walked within the tree. -/
theorem walk_append_of_up (hd : d.WellFormed) {here : Location} {front : List String}
    (hhere : d.hasDirectory here = true)
    (hfront : ∀ segment ∈ front, Path.isIdle segment = true ∨ segment = "..")
    (rest : List String) :
    d.walk here (front ++ rest) = d.walk (front.foldl Path.descend here) rest := by
  induction front generalizing here with
  | nil => rfl
  | cons segment front ih =>
    have hfront' := fun s hs => hfront s (List.mem_cons_of_mem _ hs)
    rw [List.cons_append, List.foldl_cons]
    by_cases hidle : Path.isIdle segment = true
    · rw [walk_cons_of_isIdle hhere hidle, Path.descend_of_isIdle hidle, ih hhere hfront']
    · obtain rfl := (hfront segment (List.mem_cons_self ..)).resolve_left hidle
      obtain ⟨changed, hnode⟩ := hasDirectory_iff.1 hhere
      have hdescend : Path.descend here ".." = here.dropLast := by simp [Path.descend, Path.isIdle]
      rw [walk, hnode, hdescend, ← ih (hd.parent _ _ hnode) hfront']
      simp [Path.isIdle]

/-- A normalised path leads to the node that stands where its segments lead. -/
theorem locate_normalise (hd : d.WellFormed) {node : Node}
    (hnode : d.node? (d.lexical (Path.normalise path)) = some node) :
    d.locate (Path.normalise path) = .ok (d.lexical (Path.normalise path)) := by
  obtain ⟨idle, ups, names, hsegments, -, hidle, hups, hnames⟩ :=
    Path.exists_segments_normalise path
  have hfront : ∀ segment ∈ idle ++ ups, Path.isIdle segment = true ∨ segment = ".." := by
    intro segment hsegment
    rcases List.mem_append.1 hsegment with h | h
    · exact .inl (hidle segment h)
    · exact .inr (hups segment h)
  have hstart := hd.hasDirectory_start (Path.normalise path)
  have hwalk := hd.walk_append_of_up hstart hfront names
  have hlexical : d.lexical (Path.normalise path) =
      (idle ++ ups).foldl Path.descend (d.start (Path.normalise path)) ++ names := by
    rw [lexical, hsegments, ← List.append_assoc, List.foldl_append,
      Path.foldl_descend_of_isName hnames]
  rw [hlexical] at hnode ⊢
  refine locate_eq_ok_iff.2
    ⟨fun hnul => ?_, Path.normalise_ne_empty path, fits_unlimited _, ?_⟩
  · rcases Path.mem_segments_of_mem hnul with h | ⟨segment, hsegment, hc⟩
    · simp at h
    · rw [hsegments, ← List.append_assoc] at hsegment
      rcases List.mem_append.1 hsegment with h | h
      · rcases hfront segment h with h | rfl
        · simp only [Path.isIdle, Bool.or_eq_true, beq_iff_eq] at h
          rcases h with rfl | rfl <;> simp at hc
        · simp at hc
      · exact (hd.names _ _ hnode segment (List.mem_append_right _ h)).2.1 hc
  · rw [hsegments, ← List.append_assoc, hwalk]
    exact hd.walk_append _ hnode

/-- A normalised path is that of a file if one stands where its segments lead. -/
theorem isFile_normalise_iff (hd : d.WellFormed) : d.isFile (Path.normalise path) = true ↔
    ∃ bytes changed, d.node? (d.lexical (Path.normalise path)) = some (.file bytes changed) := by
  rw [isFile_iff]
  constructor
  · rintro ⟨location, bytes, changed, hlocate, hnode⟩
    exact ⟨bytes, changed, eq_lexical_of_locate hlocate ▸ hnode⟩
  · rintro ⟨bytes, changed, hnode⟩
    exact ⟨_, bytes, changed, hd.locate_normalise hnode, hnode⟩

end WellFormed

end StyleBundle.Disk
