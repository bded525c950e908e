import Mathlib.Data.List.TakeWhile
import StyleBundle.Dependency.Walk
import StyleBundle.Proofs.Disk.Spelling
import StyleBundle.Proofs.Import.Target

/-!
# Lookups

A lookup probes one list of paths, directory by directory, and takes the first that is a file. What
it finds on a well-formed disk is an absolute path of an existing file, and it is one of the paths
that the walk knows in advance.
-/

namespace StyleBundle.Dependency

/-- The paths that a lookup probes, in order. -/
def probes (directories candidates : List String) : List String :=
  directories.flatMap fun directory =>
    candidates.map fun candidate => Path.normalise (Path.join directory candidate)

/-- A lookup makes the first probe that is a file absolute. -/
theorem lookup_eq_find? [Limits] (d : Disk) (directories candidates : List String) :
    lookup d directories candidates =
      ((probes directories candidates).find? d.isFile).map d.absolute := by
  have hrow (directory : String) : (candidates.findSome? fun candidate =>
      let path := Path.normalise (Path.join directory candidate)
      if d.isFile path then some (d.absolute path) else none) =
      ((candidates.map fun candidate =>
        Path.normalise (Path.join directory candidate)).find? d.isFile).map d.absolute := by
    induction candidates with
    | nil => rfl
    | cons candidate rest ih =>
      by_cases hfile : d.isFile (Path.normalise (Path.join directory candidate)) = true
      · simp [hfile]
      · simpa [List.findSome?_cons, hfile] using ih
  unfold lookup probes
  induction directories with
  | nil => rfl
  | cons directory rest ih =>
    rw [List.findSome?_cons, hrow, List.flatMap_cons, List.find?_append]
    cases (List.find? d.isFile
      (candidates.map fun candidate => Path.normalise (Path.join directory candidate))) with
    | some path => rfl
    | none => simpa using ih

variable {d : Disk} {s : Search} {origin target path : String}

/-- What a target leads to is the absolute spelling of a file. -/
theorem exists_file_of_resolve [Limits] (hd : d.WellFormed)
    (h : resolve d s origin target = some path) :
    ∃ location bytes changed, d.node? location = some (.file bytes changed) ∧
      path ∈ Disk.spellings location := by
  rw [resolve, lookup_eq_find?] at h
  obtain ⟨probe, hprobe, rfl⟩ := Option.map_eq_some_iff.1 h
  obtain ⟨location, bytes, changed, hlocate, hnode⟩ := Disk.isFile_iff.1 (List.find?_some hprobe)
  exact ⟨location, bytes, changed, hnode, hd.absolute_mem_spellings hlocate⟩

/-- What a target leads to is one of the paths of all files. -/
theorem mem_filePaths_of_resolve [Limits] (hd : d.WellFormed)
    (h : resolve d s origin target = some path) : path ∈ filePaths d := by
  obtain ⟨location, bytes, changed, hnode, hpath⟩ := exists_file_of_resolve hd h
  have hfile : (location, bytes) ∈ d.files :=
    List.mem_filterMap.2 ⟨_, Table.mem_of_get? hnode, rfl⟩
  exact List.mem_flatMap.2 ⟨_, hfile, hpath⟩

/-- What a target leads to is a file. -/
theorem isFile_of_resolve (hd : d.WellFormed) (h : resolve d s origin target = some path) :
    d.isFile path = true := by
  obtain ⟨location, bytes, changed, hnode, hpath⟩ := exists_file_of_resolve hd h
  exact Disk.isFile_iff.2
    ⟨location, bytes, changed, hd.locate_of_mem_spellings hnode hpath, hnode⟩

/-- What a target leads to is an absolute path. -/
theorem absolute_of_resolve (hd : d.WellFormed) (h : resolve d s origin target = some path) :
    d.absolute path = path := by
  obtain ⟨location, bytes, changed, hnode, hpath⟩ := exists_file_of_resolve hd h
  exact hd.absolute_eq_self hnode hpath

/-! ## Candidates -/

/-- The name of a path holds no slash. -/
theorem not_mem_splitLast (path : String) : '/' ∉ (Path.splitLast path).2.toList := by
  intro h
  simp only [Path.splitLast, String.toList_ofList, List.mem_reverse] at h
  simpa using List.mem_takeWhile_imp h

/-- The form of a name ends in the name, and what stands in front holds no slash. -/
theorem exists_mark_of_mem_nameForms {partials : Bool} {name form : String}
    (h : form ∈ nameForms partials name) : ∃ mark : String, '/' ∉ mark.toList ∧
      form = mark ++ name := by
  unfold nameForms at h
  split at h
  · rcases List.mem_cons.1 h with rfl | h
    · exact ⟨"", by simp, by simp⟩
    · exact ⟨"_", by decide, List.mem_singleton.1 h⟩
  · exact ⟨"", by simp, by simpa using h⟩

/-- A candidate ends in a name with a known extension. -/
theorem exists_extension_of_mem_candidates {partials : Bool} {extensions : List String}
    {candidate : String} (hslash : ∀ extension ∈ extensions, '/' ∉ extension.toList)
    (h : candidate ∈ candidates partials extensions target) :
    ∃ head stem, ∃ extension ∈ extensions, '/' ∉ (stem ++ "." ++ extension).toList ∧
      candidate = Path.join head (stem ++ "." ++ extension) := by
  have hname := not_mem_splitLast target
  rw [candidates] at h
  generalize Path.splitLast target = parts at h hname
  obtain ⟨head, name⟩ := parts
  obtain ⟨form, hform, hcandidate⟩ := List.mem_flatMap.1 h
  obtain ⟨mark, hmark, rfl⟩ := exists_mark_of_mem_nameForms hform
  split at hcandidate
  next hextension =>
    obtain ⟨extension, hmem, hsome⟩ := List.any_eq_true.1 hextension
    obtain ⟨stem, hstem⟩ := Option.isSome_iff_exists.1 hsome
    obtain rfl := Import.dropEnd?_eq_some_iff.1 hstem
    refine ⟨head, mark ++ stem, extension, hmem, ?_, ?_⟩
    · simpa [hmark] using hname
    · rw [List.mem_singleton.1 hcandidate, String.append_assoc, String.append_assoc]
  next =>
    obtain ⟨extension, hmem, rfl⟩ := List.mem_map.1 hcandidate
    refine ⟨head, mark ++ name, extension, hmem, ?_, rfl⟩
    simpa [hmark, hname] using hslash extension hmem

/-- What a lookup probes is a normalised path. -/
theorem exists_normalise_of_mem_probes {directories candidates : List String} {probe : String}
    (h : probe ∈ probes directories candidates) : ∃ path, probe = Path.normalise path := by
  obtain ⟨directory, -, hprobe⟩ := List.mem_flatMap.1 h
  obtain ⟨candidate, -, rfl⟩ := List.mem_map.1 hprobe
  exact ⟨_, rfl⟩

/-- What is probed for a path that ends in a name leads to that name. -/
theorem exists_lexical_normalise_join {name : String} (hname : Path.IsName name)
    {above : List String} (h : Path.segments path = above ++ [name]) (directory : String) :
    ∃ above', d.lexical (Path.normalise (Path.join directory path)) = above' ++ [name] := by
  obtain ⟨front, hfront⟩ := Path.exists_segments_join directory path
  rw [h, ← List.append_assoc] at hfront
  obtain ⟨front', hfront'⟩ := Path.exists_segments_normalise_of_isName hname hfront
  exact Disk.exists_lexical_of_isName hname hfront'

/-- What a lookup probes for a target leads to a name with a known extension. -/
theorem exists_lexical_probe {directories extensions : List String} {partials : Bool}
    {probe : String}
    (hextensions : ∀ extension ∈ extensions,
      2 ≤ extension.toList.length ∧ '/' ∉ extension.toList)
    (h : probe ∈ probes directories (candidates partials extensions target)) :
    ∃ above stem, ∃ extension ∈ extensions,
      d.lexical probe = above ++ [stem ++ "." ++ extension] := by
  obtain ⟨directory, -, hprobe⟩ := List.mem_flatMap.1 h
  obtain ⟨candidate, hcandidate, rfl⟩ := List.mem_map.1 hprobe
  obtain ⟨head, stem, extension, hmem, hslash, rfl⟩ :=
    exists_extension_of_mem_candidates (fun e he => (hextensions e he).2) hcandidate
  have hname : Path.IsName (stem ++ "." ++ extension) := by
    have hlength := (hextensions extension hmem).1
    apply Path.isName_of_two_lt _ hslash
    simp only [String.toList_append, List.length_append]
    have hdot : ".".toList.length = 1 := rfl
    omega
  obtain ⟨above, habove⟩ := Path.exists_segments_join head (stem ++ "." ++ extension)
  rw [Path.segments_of_isName hname] at habove
  obtain ⟨location, hlexical⟩ := exists_lexical_normalise_join (d := d) hname habove directory
  exact ⟨location, stem, extension, hmem, hlexical⟩

/-- What a target leads to is the absolute spelling of a file with a known extension. -/
theorem exists_named_file_of_resolve (hd : d.WellFormed)
    (hextensions : ∀ extension ∈ s.extensions,
      2 ≤ extension.toList.length ∧ '/' ∉ extension.toList)
    (h : resolve d s origin target = some path) : ∃ above stem, ∃ extension ∈ s.extensions,
      (∃ bytes changed, d.node? (above ++ [stem ++ "." ++ extension]) =
        some (.file bytes changed)) ∧
      path ∈ Disk.spellings (above ++ [stem ++ "." ++ extension]) := by
  rw [resolve, lookup_eq_find?] at h
  obtain ⟨probe, hprobe, rfl⟩ := Option.map_eq_some_iff.1 h
  obtain ⟨location, bytes, changed, hlocate, hnode⟩ := Disk.isFile_iff.1 (List.find?_some hprobe)
  obtain ⟨above, stem, extension, hmem, hlexical⟩ :=
    exists_lexical_probe (d := d) hextensions (List.mem_of_find?_eq_some hprobe)
  have hlocation := Disk.eq_lexical_of_locate hlocate
  rw [hlexical] at hlocation
  subst hlocation
  exact ⟨above, stem, extension, hmem, ⟨bytes, changed, hnode⟩, hd.absolute_mem_spellings hlocate⟩

end StyleBundle.Dependency
