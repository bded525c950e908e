import StyleBundle.Proofs.Disk.Way

/-!
# Paths as the disk spells them

A path is resolved to the spelling with one leading slash of the location that its segments lead
to. Resolving it again changes nothing, and a path without NUL is only refused for what stands on
the disk.
-/

namespace StyleBundle.Disk

variable {d d' : Disk} {path full : String} {location base : Location} {fault : Fault}

/-! ## The path of a location -/

theorem pathOf_eq_assemble (location : Location) :
    pathOf location = Path.assemble (Path.root "/") location := by
  have hroot : Path.root "/" = "/" := by decide
  rw [hroot, Path.assemble, if_neg (by simp), pathOf]

theorem names_pathOf (h : ∀ name ∈ location, Path.IsName name) :
    Path.names (pathOf location) = location := by
  rw [pathOf_eq_assemble, Path.names_assemble _ fun name hname => (h name hname).isStep]

theorem root_pathOf (h : ∀ name ∈ location, Path.IsName name) :
    Path.root (pathOf location) = "/" := Path.root_slash h

theorem tidy_pathOf (h : ∀ name ∈ location, Path.IsName name) :
    Path.tidy (pathOf location) = pathOf location := by
  rw [Path.tidy, names_pathOf h, pathOf_eq_assemble,
    Path.root_assemble _ fun name hname => (h name hname).isStep]

/-- The parent of the path of a location is that of the location above. -/
theorem parent_pathOf (h : ∀ name ∈ location, Path.IsName name) :
    Path.parent (pathOf location) = pathOf location.dropLast := by
  rw [Path.parent, names_pathOf h, pathOf_eq_assemble, pathOf_eq_assemble,
    Path.root_assemble _ fun name hname => (h name hname).isStep]

/-- The path of a location is below those of the locations above. -/
theorem below?_pathOf (h : ∀ name ∈ location, Path.IsName name)
    (hbase : ∀ name ∈ base, Path.IsName name) :
    Path.below? (pathOf base) (pathOf location) =
      if base <+: location then some (location.drop base.length) else none := by
  simp only [Path.below?, root_pathOf h, root_pathOf hbase, names_pathOf h, names_pathOf hbase,
    true_and, List.isPrefixOf_iff_prefix]

/-- A NUL in the path of a location stands in one of its names. -/
theorem nul_not_mem_pathOf (h : ∀ name ∈ location, Path.IsName name)
    (hnul : ∀ name ∈ location, '\x00' ∉ name.toList) : '\x00' ∉ (pathOf location).toList := by
  intro hmem
  rw [pathOf_eq_assemble] at hmem
  obtain ⟨name, hname, hc⟩ := Path.exists_step_of_mem_assemble
    (fun name hname => (h name hname).isStep) (by decide) (by decide) hmem
  exact hnul name hname hc

/-! ## Resolving -/

/-- Segments lead to names. -/
theorem WellFormed.isName_of_mem_lexical (hd : d.WellFormed) (path : String) :
    ∀ name ∈ d.lexical path, Path.IsName name := by
  refine Path.isName_of_mem_foldl_descend (fun _ => Path.not_mem_of_mem_segments) ?_
  intro name hname
  unfold start at hname
  split at hname
  · cases hname
  · exact (hd.home_names name hname).1

/-- Only a NUL keeps a path from being resolved. -/
theorem resolve_eq_error_iff :
    d.resolve path = .error fault ↔ '\x00' ∈ path.toList ∧ fault = .nul (some "lstat") := by
  unfold resolve
  split
  next hnul => simp [hnul, eq_comm]
  next hnul => simp [hnul]

/-- A path is resolved to the path of the location that its segments lead to. -/
theorem WellFormed.resolve_eq_ok_iff (hd : d.WellFormed) :
    d.resolve path = .ok full ↔ '\x00' ∉ path.toList ∧ full = pathOf (d.lexical path) := by
  have hnames := hd.isName_of_mem_lexical path
  have hcanonical : Path.canonical d.homePath path = pathOf (d.lexical path) := by
    have hfull := absolute_mem_spellings_lexical hd path
    rw [Path.canonical, ← absolute]
    rcases mem_spellings.1 hfull with hone | htwo
    · rw [hone, root_pathOf hnames, if_neg (by decide)]
    · rw [htwo, pathOf, Path.root_twoSlashes hnames, if_pos rfl]
      simp
  unfold resolve
  split
  next hnul => simp [hnul]
  next hnul => simp [hnul, hcanonical, eq_comm]

/-- The path of a location is resolved already. -/
theorem WellFormed.resolve_pathOf (hd : d.WellFormed) (h : ∀ name ∈ location, Path.IsName name)
    (hnul : ∀ name ∈ location, '\x00' ∉ name.toList) :
    d.resolve (pathOf location) = .ok (pathOf location) := by
  have habsolute : Path.isAbsolute (pathOf location) = true := by
    simp [Path.isAbsolute, toList_pathOf]
  refine hd.resolve_eq_ok_iff.2 ⟨nul_not_mem_pathOf h hnul, ?_⟩
  rw [lexical, start, if_pos habsolute, foldl_segments_pathOf h]

/-- Segments of a path without NUL lead to names without NUL. -/
theorem WellFormed.nul_not_mem_lexical (hd : d.WellFormed) (hnul : '\x00' ∉ path.toList) :
    ∀ name ∈ d.lexical path, '\x00' ∉ name.toList := by
  intro name hname hc
  rcases Path.mem_or_mem_of_mem_foldl_descend hname with hstart | hsegment
  · unfold start at hstart
    split at hstart
    · cases hstart
    · exact (hd.home_names name hstart).2.1 hc
  · exact hnul (Path.mem_of_mem_segments hsegment hc)

/-- A resolved path holds no NUL. -/
theorem WellFormed.nul_not_mem_of_resolve (hd : d.WellFormed) (h : d.resolve path = .ok full) :
    '\x00' ∉ full.toList := by
  obtain ⟨hnul, rfl⟩ := hd.resolve_eq_ok_iff.1 h
  exact nul_not_mem_pathOf (hd.isName_of_mem_lexical path) (hd.nul_not_mem_lexical hnul)

/-! ## Faults of paths without NUL -/

variable [Limits]

/-- A path without NUL is written to or refused. -/
theorem exists_refused_of_writeText {text : String} (hnul : '\x00' ∉ path.toList)
    (h : d.writeText path text = .error fault) : ∃ cause p, fault = .refused cause p := by
  unfold writeText writeBytes at h
  split at h
  next hlocate =>
    obtain rfl := Except.error.inj h
    obtain ⟨cause, rfl⟩ := exists_refused_of_locate hnul hlocate
    exact ⟨cause, path, rfl⟩
  next =>
    split at h
    · exact ⟨.isDirectory, path, (Except.error.inj h).symm⟩
    · cases h

/-- A directory at a path without NUL is made or refused. -/
theorem exists_refused_of_makeDirectory (hnul : '\x00' ∉ path.toList)
    (h : d.makeDirectory path = .error fault) : ∃ cause p, fault = .refused cause p := by
  unfold makeDirectory at h
  split at h
  next hlocate =>
    obtain ⟨cause, hcause⟩ := exists_refused_of_locate hnul hlocate
    cases hcause
  next hlocate =>
    obtain rfl := Except.error.inj h
    obtain ⟨cause, rfl⟩ := exists_refused_of_locate hnul hlocate
    exact ⟨cause, path, rfl⟩
  next =>
    split at h
    · exact ⟨.taken, path, (Except.error.inj h).symm⟩
    · cases h

/-- A directory that is kept or not is refused as it was before. -/
theorem exists_refused_of_unlessDirectory {first : Fault}
    (hfirst : ∃ cause p, first = .refused cause p)
    (h : d.unlessDirectory path first = .error fault) : ∃ cause p, fault = .refused cause p := by
  unfold unlessDirectory at h
  split at h
  · cases h
  · obtain rfl := Except.error.inj h
    exact hfirst

/-- The directories of a path without NUL are made or refused. -/
theorem exists_refused_of_makeDirectoriesWithin {depth : Nat} (hnul : '\x00' ∉ path.toList)
    (h : d.makeDirectoriesWithin path depth = .error fault) :
    ∃ cause p, fault = .refused cause p := by
  induction depth generalizing path fault with
  | zero =>
    rw [makeDirectoriesWithin_zero] at h
    exact exists_refused_of_makeDirectory hnul h
  | succ depth ih =>
    rw [makeDirectoriesWithin_succ] at h
    split at h
    · cases h
    next p _ =>
      split at h
      · exact ⟨.missing, p, (Except.error.inj h).symm⟩
      · split at h
        next habove =>
          obtain rfl := Except.error.inj h
          exact ih (mt (Path.mem_of_mem_parent (by decide) (by decide)) hnul) habove
        next =>
          split at h
          · cases h
          next p _ => exact ⟨.missing, p, (Except.error.inj h).symm⟩
          next hmake => exact
            exists_refused_of_unlessDirectory (exists_refused_of_makeDirectory hnul hmake) h
    next hmake =>
      exact exists_refused_of_unlessDirectory (exists_refused_of_makeDirectory hnul hmake) h

end StyleBundle.Disk
