import StyleBundle.Proofs.Disk.Way

/-!
# Directories that are made and removed

Making the directories of a path makes them on its way and nowhere else, and it succeeds where the
way is open. Removing a directory removes what stands below it and nothing else.
-/

namespace StyleBundle.Disk

variable {d d' : Disk} {location place : Location} {path : String}

/-! ## Walks to directories -/

/-- A walk that arrives at a directory starts at one. -/
theorem hasDirectory_of_walk_eq_ok {here : Location} {segments : List String}
    (h : d.walk here segments = .ok location) (hdirectory : d.hasDirectory location = true) :
    d.hasDirectory here = true := by
  cases segments with
  | nil => rwa [Except.ok.inj h]
  | cons segment rest =>
    rw [walk] at h
    split at h
    · cases h
    · cases h
    next changed hnode => exact hasDirectory_iff.2 ⟨changed, hnode⟩

/-- Idle segments are passed on the way to a directory. -/
theorem walk_of_walk_filter {here : Location} {segments : List String}
    (h : d.walk here (segments.filter (!Path.isIdle ·)) = .ok location)
    (hdirectory : d.hasDirectory location = true) : d.walk here segments = .ok location := by
  induction segments generalizing here with
  | nil => exact h
  | cons segment rest ih =>
    cases hidle : Path.isIdle segment with
    | true =>
      rw [List.filter_cons_of_neg (by simp [hidle])] at h
      rw [walk_cons_of_isIdle (hasDirectory_of_walk_eq_ok h hdirectory) hidle]
      exact ih h
    | false =>
      rw [List.filter_cons_of_pos (by simp [hidle]), walk] at h
      rw [walk]
      split at h
      · cases h
      · cases h
      next changed hnode =>
        simp only [hidle, Bool.false_eq_true, if_false] at h ⊢
        split
        next hup =>
          rw [if_pos hup] at h
          exact ih h
        next hup =>
          rw [if_neg hup] at h
          split
          next hlong =>
            rw [if_pos hlong] at h
            cases h
          next hlong =>
            rw [if_neg hlong] at h
            exact ih h

/-- A tidy path leads where its names lead. -/
theorem WellFormed.walk_segments (hd : d.WellFormed) (htidy : Path.tidy path = path) :
    d.walk (d.start path) (Path.segments path) = d.walk (d.start path) (Path.names path) := by
  obtain ⟨idle, hidle, hsegments⟩ := Path.exists_segments_assemble (Path.root_cases path)
    fun _ hname => (Path.isStep_of_mem_names hname).2
  rw [← Path.tidy, htidy] at hsegments
  rw [hsegments, hd.walk_append_of_up (hd.hasDirectory_start path) fun s hs => .inl (hidle s hs),
    Path.foldl_descend_of_isIdle hidle]

/-! ## Making directories -/

/-- Only what is placed and the directory that it stands in may be new. -/
theorem isSome_of_place {node : Node} (hparent : d.hasDirectory location.dropLast = true)
    (h : ((d.place location node).node? place).isSome = true) :
    (d.node? place).isSome = true ∨ place = location := by
  by_cases hplace : place = location
  · exact .inr hplace
  · left
    rcases node?_place_of_ne hplace node with hsame | ⟨-, habove⟩
    · rwa [← hsame]
    · obtain ⟨_, hnode⟩ := hasDirectory_iff.1 hparent
      rw [habove, hnode]
      rfl

section Limited

variable [Limits]

/-- Making a directory makes it at the end of its way. -/
theorem WellFormed.isSome_of_makeDirectory (hd : d.WellFormed) (h : d.makeDirectory path = .ok d')
    (hnew : (d'.node? place).isSome = true) :
    (d.node? place).isSome = true ∨ place ∈ d.way path := by
  unfold Disk.makeDirectory at h
  split at h
  · cases h
  · cases h
  next location hlocate =>
    split at h
    · cases h
    · obtain rfl := Except.ok.inj h
      obtain ⟨hparent, -⟩ := hd.hasDirectory_of_locate hlocate
      refine (isSome_of_place hparent hnew).imp_right fun hplace => ?_
      rw [hplace, eq_lexical_of_locate hlocate]
      exact lexical_mem_way d path

/-- Trying to make directories makes them on the way and nowhere else. -/
theorem WellFormed.isSome_of_attemptDirectoriesWithin (hd : d.WellFormed) {depth : Nat}
    (hnew : ((d.attemptDirectoriesWithin path depth).disk.node? place).isSome = true) :
    (d.node? place).isSome = true ∨ place ∈ d.way path := by
  induction depth generalizing path place with
  | zero =>
    rw [Disk.attemptDirectoriesWithin] at hnew
    rcases eq_ok_or_disk_attempt d (d.makeDirectory path) with hmade | hkept
    · exact hd.isSome_of_makeDirectory hmade hnew
    · rw [hkept] at hnew
      exact .inl hnew
  | succ depth ih =>
    rw [Disk.attemptDirectoriesWithin] at hnew
    split at hnew
    next made hmade => exact hd.isSome_of_makeDirectory hmade hnew
    next =>
      split at hnew
      · exact .inl hnew
      · have hfirst := hd.attemptDirectoriesWithin (Path.parent path) depth
        have hbefore {place : Location} (hplace : ((d.attemptDirectoriesWithin (Path.parent path)
            depth).disk.node? place).isSome = true) :
            (d.node? place).isSome = true ∨ place ∈ d.way path :=
          (ih hplace).imp_right mem_way_of_mem_way_parent
        split at hnew
        next fault above habove =>
          rw [habove] at hbefore
          exact hbefore hnew
        next above habove =>
          rw [habove] at hfirst hbefore
          split at hnew
          next made hmade =>
            rcases hfirst.2.isSome_of_makeDirectory hmade hnew with hold | hway
            · exact hbefore hold
            · rw [way_congr hfirst.1.home] at hway
              exact .inr hway
          next => exact hbefore hnew
          next =>
            rw [disk_attempt_unlessDirectory] at hnew
            exact hbefore hnew
    next =>
      rw [disk_attempt_unlessDirectory] at hnew
      exact .inl hnew

theorem WellFormed.isSome_of_attemptDirectories (hd : d.WellFormed)
    (hnew : ((d.attemptDirectories path).disk.node? place).isSome = true) :
    (d.node? place).isSome = true ∨ place ∈ d.way path :=
  hd.isSome_of_attemptDirectoriesWithin hnew

/-- Making directories makes them on the way and nowhere else. -/
theorem WellFormed.isSome_of_makeDirectories (hd : d.WellFormed)
    (h : d.makeDirectories path = .ok d') (hnew : (d'.node? place).isSome = true) :
    (d.node? place).isSome = true ∨ place ∈ d.way path := by
  rw [← Attempt.disk_of_result h] at hnew
  exact hd.isSome_of_attemptDirectories hnew

/-! ## Directories along an open way -/

/-- A tidy path leads where its names lead, if they lead anywhere. -/
theorem WellFormed.locate_eq_ok_iff_of_tidy (hd : d.WellFormed) (htidy : Path.tidy path = path) :
    d.locate path = .ok location ↔ '\x00' ∉ path.toList ∧ Fits path ∧
      d.walk (d.start path) (Path.names path) = .ok location := by
  rw [locate_eq_ok_iff, hd.walk_segments htidy]
  constructor
  · rintro ⟨hnul, -, hfits, hwalk⟩
    exact ⟨hnul, hfits, hwalk⟩
  · rintro ⟨hnul, hfits, hwalk⟩
    exact ⟨hnul, Path.ne_empty_of_tidy htidy, hfits, hwalk⟩

/-- A path below a directory leads one step on. -/
theorem WellFormed.locate_of_parent (hd : d.WellFormed) (htidy : Path.tidy path = path)
    (hnul : '\x00' ∉ path.toList) (hfits : Fits path)
    (hshort : ∀ name ∈ Path.names path, isLongName name = false)
    (hparent : d.locate (Path.parent path) = .ok (d.lexical (Path.parent path)))
    (hdirectory : d.hasDirectory (d.lexical (Path.parent path)) = true) :
    d.locate path = .ok (d.lexical path) := by
  rcases List.eq_nil_or_concat (Path.names path) with hnames | ⟨front, last, hnames⟩
  · refine (hd.locate_eq_ok_iff_of_tidy htidy).2 ⟨hnul, hfits, ?_⟩
    rw [lexical_eq_foldl_names, hnames]
    rfl
  · rw [List.concat_eq_append] at hnames
    have hfront : Path.names (Path.parent path) = front := by
      rw [Path.names_parent, hnames, List.dropLast_concat]
    have hstart : d.start (Path.parent path) = d.start path := start_congr (Path.root_parent path)
    have hwalk := ((hd.locate_eq_ok_iff_of_tidy (Path.tidy_parent path)).1 hparent).2.2
    rw [hfront, hstart] at hwalk
    obtain ⟨changed, hnode⟩ := hasDirectory_iff.1 hdirectory
    have hmem : last ∈ Path.names path := by simp [hnames]
    have hlast := Path.isStep_of_mem_names hmem
    have hlength := hshort last hmem
    have hlexical : d.lexical path = Path.descend (d.lexical (Path.parent path)) last := by
      rw [lexical_eq_foldl_names, lexical_eq_foldl_names, hnames, List.foldl_append, hfront, hstart]
      rfl
    refine (hd.locate_eq_ok_iff_of_tidy htidy).2 ⟨hnul, hfits, ?_⟩
    rw [hnames, Disk.walk_append, hwalk, hlexical]
    simp only [Except.bind, walk, hnode, hlast.1, hlength, Bool.false_eq_true, if_false,
      Path.descend]
    split <;> rfl

/-- Where a name behind a path leads somewhere, the path leads to a directory. -/
theorem WellFormed.locate_of_locate_child (hd : d.WellFormed) {base name : String}
    (hname : Path.IsName name) (hbase : base ≠ "") (hfits : Fits base)
    (hlocate : d.locate (Path.child base name) = .ok location) :
    d.locate base = .ok (d.lexical base) ∧ d.hasDirectory (d.lexical base) = true := by
  obtain ⟨hnul, -, hwalk⟩ :=
    (hd.locate_eq_ok_iff_of_tidy (Path.tidy_child base hname)).1 hlocate
  rw [start_congr (Path.root_child base hname), Path.names_child base hname,
    Disk.walk_append] at hwalk
  cases hfront : d.walk (d.start base) (Path.names base) with
  | error cause =>
    rw [hfront] at hwalk
    cases hwalk
  | ok above =>
    rw [hfront] at hwalk
    have hlexical : above = d.lexical base := by
      rw [lexical_eq_foldl_names]
      exact eq_foldl_of_walk hfront
    have hlast : d.walk above [name] = .ok location := hwalk
    have hdirectory : d.hasDirectory above = true := by
      rw [walk] at hlast
      split at hlast
      · cases hlast
      · cases hlast
      next changed hnode => exact hasDirectory_iff.2 ⟨changed, hnode⟩
    rw [← hlexical]
    refine ⟨locate_eq_ok_iff.2
      ⟨?_, hbase, hfits, walk_of_walk_filter hfront hdirectory⟩, hdirectory⟩
    exact mt (Path.mem_child_of_mem hname (by decide) (by decide)) hnul

/-- A name behind a path that leads to a directory leads one step on. -/
theorem WellFormed.locate_child (hd : d.WellFormed) {base name : String} (hname : IsFileName name)
    (htidy : Path.tidy base = base) (hfits : Fits (Path.child base name))
    (hlocate : d.locate base = .ok location) (hdirectory : d.hasDirectory location = true) :
    d.locate (Path.child base name) = .ok (location ++ [name]) := by
  obtain ⟨hnul, -, hwalk⟩ := (hd.locate_eq_ok_iff_of_tidy htidy).1 hlocate
  obtain ⟨changed, hnode⟩ := hasDirectory_iff.1 hdirectory
  refine (hd.locate_eq_ok_iff_of_tidy (Path.tidy_child base hname.1)).2 ⟨?_, hfits, ?_⟩
  · intro hmem
    rcases Path.mem_or_mem_of_mem_child hname.1 (by decide) (by decide) hmem with hmem | hmem
    · exact hnul hmem
    · exact hname.2.1 hmem
  · rw [start_congr (Path.root_child base hname.1), Path.names_child base hname.1, Disk.walk_append,
      hwalk]
    simp only [Except.bind, walk, hnode, hname.1.not_isIdle, hname.1.2.2.1, hname.2.2,
      Bool.false_eq_true, if_false]

/-- A refusal is forgotten where a path leads to a directory. -/
theorem unlessDirectory_of_hasDirectory (hlocate : d.locate path = .ok location)
    (hdirectory : d.hasDirectory location = true) (fault : Fault) :
    d.unlessDirectory path fault = .ok d := by
  obtain ⟨changed, hnode⟩ := hasDirectory_iff.1 hdirectory
  have hfind := find_eq_ok_iff.2 ⟨location, hlocate, hnode⟩
  simp only [unlessDirectory, isDirectory, find?, hfind, Except.toOption, Option.any_some,
    Node.isFile, Bool.not_false, if_true]

/-- Where a path leads to a directory, there is none to be made. -/
theorem makeDirectory_of_hasDirectory (hlocate : d.locate path = .ok location)
    (hdirectory : d.hasDirectory location = true) :
    d.makeDirectory path = .error (.refused .taken path) := by
  obtain ⟨changed, hnode⟩ := hasDirectory_iff.1 hdirectory
  simp only [makeDirectory, hlocate, hnode, Option.isSome_some, if_true]

/-- Where a path leads to a directory, making its directories changes nothing. -/
theorem makeDirectories_of_hasDirectory (hlocate : d.locate path = .ok location)
    (hdirectory : d.hasDirectory location = true) : d.makeDirectories path = .ok d := by
  rw [makeDirectories_eq, makeDirectoriesWithin_succ]
  simp only [makeDirectory_of_hasDirectory hlocate hdirectory,
    unlessDirectory_of_hasDirectory hlocate hdirectory]

/-- A path leads to a directory if it is one. -/
theorem exists_of_isDirectory (h : d.isDirectory path = true) :
    d.locate path = .ok (d.lexical path) ∧ d.hasDirectory (d.lexical path) = true := by
  unfold isDirectory find? at h
  cases hfind : d.find path with
  | error fault => simp [hfind, Except.toOption] at h
  | ok node =>
    obtain ⟨location, hlocate, hnode⟩ := find_eq_ok_iff.1 hfind
    obtain rfl := eq_lexical_of_locate hlocate
    refine ⟨hlocate, ?_⟩
    simpa [hasDirectory, hnode, hfind, Except.toOption] using h

/-- A path leads to the directory that has been made. -/
theorem WellFormed.exists_of_makeDirectory (hd : d.WellFormed) (h : d.makeDirectory path = .ok d') :
    d'.locate path = .ok (d'.lexical path) ∧ d'.hasDirectory (d'.lexical path) = true := by
  obtain ⟨hmaking, -⟩ := hd.makeDirectory h
  unfold Disk.makeDirectory at h
  split at h
  · cases h
  · cases h
  next location hlocate =>
    split at h
    · cases h
    · obtain rfl := Except.ok.inj h
      rw [lexical_congr hmaking.home, ← eq_lexical_of_locate hlocate]
      exact ⟨hmaking.locate hlocate, hasDirectory_iff.2 ⟨_, node?_place_self ..⟩⟩

/-- A path leads to the last of the directories that have been made. -/
theorem WellFormed.exists_of_makeDirectoriesWithin (hd : d.WellFormed) {depth : Nat}
    (h : d.makeDirectoriesWithin path depth = .ok d') :
    d'.locate path = .ok (d'.lexical path) ∧ d'.hasDirectory (d'.lexical path) = true := by
  have hkept {d d' : Disk} {fault : Fault} (h : d.unlessDirectory path fault = .ok d') :
      d'.locate path = .ok (d'.lexical path) ∧ d'.hasDirectory (d'.lexical path) = true := by
    unfold unlessDirectory at h
    split at h
    next hdirectory =>
      obtain rfl := Except.ok.inj h
      exact exists_of_isDirectory hdirectory
    · cases h
  cases depth with
  | zero =>
    rw [makeDirectoriesWithin_zero] at h
    exact hd.exists_of_makeDirectory h
  | succ depth =>
    rw [makeDirectoriesWithin_succ] at h
    split at h
    next made hmade =>
      obtain rfl := Except.ok.inj h
      exact hd.exists_of_makeDirectory hmade
    next =>
      split at h
      · cases h
      · split at h
        · cases h
        next above habove =>
          obtain ⟨-, hwell⟩ := hd.makeDirectoriesWithin habove
          split at h
          next made hmade =>
            obtain rfl := Except.ok.inj h
            exact hwell.exists_of_makeDirectory hmade
          · cases h
          next => exact hkept h
    next => exact hkept h

theorem WellFormed.exists_of_makeDirectories (hd : d.WellFormed)
    (h : d.makeDirectories path = .ok d') :
    d'.locate path = .ok (d'.lexical path) ∧ d'.hasDirectory (d'.lexical path) = true :=
  hd.exists_of_makeDirectoriesWithin h

/-- A directory can be made, or stands there already, where a path with an open way leads somewhere.
-/
theorem WellFormed.exists_makeDirectory (hd : d.WellFormed) (hopen : d.IsOpen path)
    (hlocate : d.locate path = .ok (d.lexical path)) :
    d.hasDirectory (d.lexical path) = true ∨ ∃ d', d.makeDirectory path = .ok d' ∧
      d'.locate path = .ok (d.lexical path) ∧ d'.hasDirectory (d.lexical path) = true := by
  cases hnode : d.node? (d.lexical path) with
  | some node => exact .inl (hopen.hasDirectory hnode)
  | none =>
    right
    have hmade : d.makeDirectory path =
        .ok (d.place (d.lexical path) (.directory d.clock)) := by
      simp only [Disk.makeDirectory, hlocate, hnode, Option.isSome_none, Bool.false_eq_true,
        if_false]
    obtain ⟨hmaking, -⟩ := hd.makeDirectory hmade
    exact ⟨_, hmade, hmaking.locate hlocate, hasDirectory_iff.2 ⟨_, node?_place_self ..⟩⟩

/-- The directories of a path with an open way can be made, and the path leads to the last one then.
-/
theorem WellFormed.exists_makeDirectoriesWithin (hd : d.WellFormed) (htidy : Path.tidy path = path)
    (hopen : d.IsOpen path) {depth : Nat} (hdepth : (Path.names path).length < depth) : ∃ d',
    d.makeDirectoriesWithin path depth = .ok d' ∧ d'.locate path = .ok (d.lexical path) ∧
      d'.hasDirectory (d.lexical path) = true := by
  induction depth generalizing path with
  | zero => simp at hdepth
  | succ depth ih =>
    rw [makeDirectoriesWithin_succ]
    rcases hopen.locate with hlocate | hmissing
    · rcases hd.exists_makeDirectory hopen hlocate with hdirectory | ⟨d', hmade, hthere⟩
      · simp only [makeDirectory_of_hasDirectory hlocate hdirectory]
        exact ⟨d, unlessDirectory_of_hasDirectory hlocate hdirectory _, hlocate, hdirectory⟩
      · simp only [hmade]
        exact ⟨d', rfl, hthere⟩
    · -- Something is missing on the way, so that there is a parent: its directories are made first.
      have hrefused : d.makeDirectory path = .error (.refused .missing path) := by
        simp only [Disk.makeDirectory, hmissing]
      have hnames : Path.names path ≠ [] := by
        intro hnames
        have hlocate : d.locate path = .ok (d.start path) :=
          (hd.locate_eq_ok_iff_of_tidy htidy).2 ⟨hopen.nul, hopen.fits, by rw [hnames]; rfl⟩
        rw [hmissing] at hlocate
        cases hlocate
      have hshorter : (Path.names (Path.parent path)).length < (Path.names path).length := by
        rw [Path.names_parent, List.length_dropLast]
        have hpos := List.length_pos_iff.2 hnames
        omega
      have hother : Path.parent path ≠ path := fun heq => by
        rw [heq] at hshorter
        exact Nat.lt_irrefl _ hshorter
      obtain ⟨above, habove, hparent, hdirectory⟩ :=
        ih (Path.tidy_parent path) (hopen.parent htidy) (by omega)
      obtain ⟨hmaking, hwell⟩ := hd.makeDirectoriesWithin habove
      have hopen' : above.IsOpen path := hopen.of_evolves hmaking (by simp)
      rw [← lexical_congr hmaking.home] at hparent hdirectory
      have hlocate := hwell.locate_of_parent htidy hopen'.nul hopen'.fits hopen'.short hparent
        hdirectory
      simp only [hrefused, if_neg hother, habove]
      rw [← lexical_congr hmaking.home]
      rcases hwell.exists_makeDirectory hopen' hlocate with hstands | ⟨d', hmade, hthere⟩
      · simp only [makeDirectory_of_hasDirectory hlocate hstands]
        exact ⟨above, unlessDirectory_of_hasDirectory hlocate hstands _, hlocate, hstands⟩
      · simp only [hmade]
        exact ⟨d', rfl, hthere⟩

theorem WellFormed.exists_makeDirectories (hd : d.WellFormed) (htidy : Path.tidy path = path)
    (hopen : d.IsOpen path) : ∃ d', d.makeDirectories path = .ok d' ∧
      d'.locate path = .ok (d.lexical path) ∧ d'.hasDirectory (d.lexical path) = true :=
  hd.exists_makeDirectoriesWithin htidy hopen (Nat.lt_succ_self _)

end Limited

/-! ## Removing a directory -/

theorem node?_erase_below (h : location <+: place) : (d.erase location).node? place = none := by
  rw [node?_erase, if_pos (List.isPrefixOf_iff_prefix.2 h)]

theorem node?_erase_elsewhere (h : ¬ location <+: place) :
    (d.erase location).node? place = (d.touchParent location).node? place := by
  rw [node?_erase, if_neg (mt List.isPrefixOf_iff_prefix.1 h)]

/-- What does not stand below an erased node stays of its kind. -/
theorem WellFormed.kind?_erase (hd : d.WellFormed) {node : Node}
    (hnode : d.node? location = some node) (hother : ¬ location <+: place) :
    (d.erase location).kind? place = d.kind? place := by
  rw [kind?, node?_erase_elsewhere hother]
  rcases node?_touchParent d location place with hsame | ⟨hstamped, habove⟩
  · rw [hsame, kind?]
  · obtain ⟨changed, hparent⟩ := hasDirectory_iff.1 (hd.parent _ _ hnode)
    rw [hstamped, kind?, habove, hparent]
    rfl

/-- The files that do not stand below an erased node stay as they are, and no others are there. -/
theorem WellFormed.node?_erase_eq_file_iff (hd : d.WellFormed) {node : Node}
    (hnode : d.node? location = some node) {bytes : List UInt8} {changed : Stamp} :
    (d.erase location).node? place = some (.file bytes changed) ↔
      ¬ location <+: place ∧ d.node? place = some (.file bytes changed) := by
  by_cases hother : location <+: place
  · simp [node?_erase_below hother, hother]
  · rw [node?_erase_elsewhere hother]
    simp only [hother, not_false_eq_true, true_and]
    rcases node?_touchParent d location place with hsame | ⟨hstamped, habove⟩
    · rw [hsame]
    · obtain ⟨stamp, hparent⟩ := hasDirectory_iff.1 (hd.parent _ _ hnode)
      rw [hstamped, habove, hparent]
      simp

/-- Removing a node with all that stands below it keeps the tree well formed, unless it is the root
or the working directory stands there. -/
theorem WellFormed.eraseTree (hd : d.WellFormed) {node : Node}
    (hnode : d.node? location = some node) (hhome : ¬ location <+: d.home) :
    (d.erase location).WellFormed := by
  have hkept {other : Location} (hother : ¬ location <+: other)
      (hdirectory : d.hasDirectory other = true) :
      (d.erase location).hasDirectory other = true := by
    rw [← kind?_eq_some_false, hd.kind?_erase hnode hother, kind?_eq_some_false]
    exact hdirectory
  have hold {other : Location} {new : Node} (hnew : (d.erase location).node? other = some new) :
      ¬ location <+: other ∧ ∃ old, d.node? other = some old := by
    by_cases hother : location <+: other
    · rw [node?_erase_below hother] at hnew
      cases hnew
    · rw [node?_erase_elsewhere hother] at hnew
      refine ⟨hother, ?_⟩
      rcases node?_touchParent d location other with hsame | ⟨-, habove⟩
      · exact ⟨new, hsame ▸ hnew⟩
      · obtain ⟨changed, hparent⟩ := hasDirectory_iff.1 (hd.parent _ _ hnode)
        exact ⟨_, habove ▸ hparent⟩
  refine ⟨hkept ?_ hd.root, ?_, ?_, ?_⟩
  · intro hroot
    exact hhome (List.prefix_nil.1 hroot ▸ List.nil_prefix)
  · intro other new hnew
    obtain ⟨hother, old, hnode'⟩ := hold hnew
    exact hkept (fun h => hother (h.trans (List.dropLast_prefix other))) (hd.parent _ _ hnode')
  · intro other new hnew
    obtain ⟨-, old, hnode'⟩ := hold hnew
    exact hd.names _ _ hnode'
  · have hsame : (d.erase location).home = d.home := home_touchParent d location
    rw [hsame]
    exact hkept hhome hd.home

end StyleBundle.Disk
