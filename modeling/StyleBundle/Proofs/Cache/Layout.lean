import StyleBundle.Proofs.Cache.Store
import StyleBundle.Proofs.Disk.Tree
import StyleBundle.Transform

/-!
# Where entries stand

The entry of a source under a tag stands two levels below the cache directory: in the directory of
the tag, under the name that the digest gives. Different keys therefore have different places, as
long as the digests differ.
-/

namespace StyleBundle

namespace Digest.Sha1

/-- A digest has forty digits. -/
theorem length_hexDigest (message : List UInt8) : (hexDigest message).toList.length = 40 := by
  simp [hexDigest, hexWord]

/-- A digest is written in digits and letters. -/
theorem ne_nul_of_mem_hexDigest {message : List UInt8} {c : Char}
    (h : c ∈ (hexDigest message).toList) : c ≠ '\x00' := by
  have hdigit : ∀ n < 16, Nat.digitChar n ≠ '\x00' := by decide
  have hword {w : UInt32} (h : c ∈ hexWord w) : c ≠ '\x00' := by
    obtain ⟨i, -, rfl⟩ := List.mem_map.1 h
    exact hdigit _ (Nat.mod_lt _ (by decide))
  rw [hexDigest, String.toList_ofList] at h
  obtain ⟨w, -, hw⟩ := List.mem_flatMap.1 h
  exact hword hw

end Digest.Sha1

namespace Text.Utf8

/-- A character takes four bytes at most. -/
theorem length_encodeChar_le (c : Char) : (encodeChar c).length ≤ 4 := by
  unfold encodeChar
  simp only
  split
  · simp
  · split
    · simp
    · split <;> simp

theorem length_encode_le (s : List Char) : (encode s).length ≤ 4 * s.length := by
  induction s with
  | nil => simp [encode]
  | cons c rest ih =>
    have hc := length_encodeChar_le c
    rw [encode] at ih ⊢
    rw [List.flatMap_cons, List.length_append, List.length_cons]
    omega

end Text.Utf8

namespace Cache

open Disk (IsFileName)

variable {d d' : Disk} {directory path tag : String}

/-- The name of an entry's file is one that the disk takes. -/
theorem isFileName_fileName (path : String) : IsFileName (fileName path) := by
  refine ⟨isName_fileName path, ?_, ?_⟩
  · intro hnul
    rw [fileName, String.toList_append] at hnul
    rcases List.mem_append.1 hnul with hdigest | hsuffix
    · exact Digest.Sha1.ne_nul_of_mem_hexDigest hdigest rfl
    · simp [entrySuffix] at hsuffix
  · have hlength : (fileName path).toList.length = 45 := by
      rw [fileName, String.toList_append, List.length_append, Digest.Sha1.length_hexDigest]
      rfl
    have hbytes := Text.Utf8.length_encode_le (fileName path).toList
    have hshort : ¬ Disk.maxNameBytes < (Text.Utf8.encode (fileName path).toList).length := by
      rw [hlength] at hbytes
      rw [Disk.maxNameBytes]
      omega
    simp [Disk.isLongName, hshort]

/-- The tag of the transform is a name that the disk takes. -/
theorem isFileName_tag : IsFileName Transform.tag := by decide +kernel

/-- The entries of a tag stand one level below the cache directory. -/
theorem lexical_entryPath (d : Disk) (directory path : String) (htag : Path.IsName tag) :
    d.lexical (entryPath directory path tag) = d.lexical directory ++ [tag, fileName path] := by
  rw [entryPath, Disk.lexical_child d _ (isName_fileName path), Disk.lexical_child d _ htag,
    List.append_assoc]
  rfl

/-- The parent of an entry is the directory of its tag. -/
theorem parent_entryPath (directory path : String) (htag : Path.IsName tag) :
    Path.parent (entryPath directory path tag) = Path.child directory tag := by
  rw [entryPath, Path.parent_child _ (isName_fileName path), Path.tidy_child directory htag]

/-- The way to an entry goes on from the way to the cache directory. -/
theorem way_entryPath (d : Disk) (directory path : String) (htag : Path.IsName tag) :
    d.way (entryPath directory path tag) = d.way directory ++
      [d.lexical directory ++ [tag], d.lexical directory ++ [tag, fileName path]] := by
  rw [entryPath, Disk.way_child d _ (isName_fileName path), Disk.way_child d _ htag,
    Disk.lexical_child d _ htag]
  simp

/-- What is removed to clear the cache, or one tag of it. -/
def clearedPath (directory : String) (tag : Option String) : String :=
  (tag.map (Path.child directory)).getD (Path.tidy directory)

theorem clearedPath_none (directory : String) :
    clearedPath directory none = Path.tidy directory := rfl

theorem clearedPath_some (directory tag : String) :
    clearedPath directory (some tag) = Path.child directory tag := rfl

/-- What is removed stands at the cache directory, or at a tag's name in it. -/
theorem lexical_clearedPath (d : Disk) (directory : String) {cleared : Option String}
    (hname : ∀ tag, cleared = some tag → Path.IsName tag) :
    d.lexical (clearedPath directory cleared) = d.lexical directory ++ cleared.toList := by
  cases cleared with
  | none => rw [clearedPath_none, Disk.lexical_tidy, Option.toList_none, List.append_nil]
  | some tag =>
    rw [clearedPath_some, Disk.lexical_child d directory (hname tag rfl), Option.toList_some]

/-- There is no NUL in the path of an entry, if there is none in that of the cache directory. -/
theorem nul_not_mem_entryPath (hnul : '\x00' ∉ directory.toList) (htag : IsFileName tag) :
    '\x00' ∉ (entryPath directory path tag).toList := by
  intro h
  rcases Path.mem_or_mem_of_mem_child (isName_fileName path) (by decide) (by decide) h with h | h
  · rcases Path.mem_or_mem_of_mem_child htag.1 (by decide) (by decide) h with h | h
    · exact hnul h
    · exact htag.2.1 h
  · exact (isFileName_fileName path).2.1 h

variable [Limits]

/-- An entry is written once the directory of its tag is made, where no directory stands in its
place. -/
theorem exists_writeEntry_of_makeDirectories {entry : Entry} {made : Disk} {location : Location}
    (htag : Path.IsName entry.tag)
    (hmade : d.makeDirectories (Path.child directory entry.tag) = .ok made)
    (hlocate : made.locate (entryPath directory entry.path entry.tag) = .ok location)
    (hkind : made.kind? location ≠ some false) : ∃ d', writeEntry d directory entry = .ok d' := by
  obtain ⟨d', hwritten⟩ := Disk.exists_writeText hlocate hkind entry.print
  refine ⟨d', ?_⟩
  simp only [writeEntry_eq, parent_entryPath directory entry.path htag, hmade, Except.bind,
    hwritten]

/-- What can be cleared is cleared: nothing fails where no file is in the way. -/
theorem exists_clear_of_isOpen {tag : Option String}
    (hopen : d.IsOpen (clearedPath directory tag)) :
    ∃ d', clear d directory tag = .ok d' := by
  unfold clear
  rw [← clearedPath]
  simp only
  have hprobe (hfind : d.find (clearedPath directory tag) =
      .error (.refused .missing (clearedPath directory tag))) :
      d.probe (clearedPath directory tag) = .ok none := by
    simp only [Disk.probe, hfind]
  rcases hopen.locate with hlocate | hmissing
  · cases hnode : d.node? (d.lexical (clearedPath directory tag)) with
    | none =>
      rw [hprobe (by simp only [Disk.find, hlocate, hnode])]
      exact ⟨d, rfl⟩
    | some node =>
      obtain ⟨changed, hdirectory⟩ := Disk.hasDirectory_iff.1 (hopen.hasDirectory hnode)
      have hfind := Disk.find_eq_ok_iff.2 ⟨_, hlocate, hdirectory⟩
      simp only [Disk.probe, Disk.removeTree, hfind, hlocate]
      exact ⟨_, rfl⟩
  · rw [hprobe (by simp only [Disk.find, hmissing])]
    exact ⟨d, rfl⟩

/-- Writing an entry makes nothing but what stands on the way to it. -/
theorem isSome_of_writeEntry (hd : d.WellFormed) {entry : Entry}
    (h : writeEntry d directory entry = .ok d') {place : Location}
    (hnew : (d'.node? place).isSome = true) : (d.node? place).isSome = true ∨
      place ∈ d.way (entryPath directory entry.path entry.tag) := by
  obtain ⟨made, hmade, hwritten⟩ := exists_made_of_writeEntry h
  obtain ⟨hmaking, hwell⟩ := hd.makeDirectoriesWithin hmade
  have hplace : (made.node? place).isSome = true ∨
      place = made.lexical (entryPath directory entry.path entry.tag) := by
    unfold Disk.writeText Disk.writeBytes at hwritten
    split at hwritten
    · cases hwritten
    next location hlocate =>
      split at hwritten
      · cases hwritten
      · obtain rfl := Except.ok.inj hwritten
        rw [← Disk.eq_lexical_of_locate hlocate]
        obtain ⟨hparent, -⟩ := hwell.hasDirectory_of_locate hlocate
        exact Disk.isSome_of_place hparent hnew
  rcases hplace with hplace | hplace
  · rcases hd.isSome_of_makeDirectories hmade hplace with hold | hway
    · exact .inl hold
    · exact .inr (Disk.mem_way_of_mem_way_parent hway)
  · rw [hplace, Disk.lexical_congr hmaking.home]
    exact .inr (Disk.lexical_mem_way d _)

/-- Clearing removes a directory with all below it, or there is none. -/
theorem probe_or_erase_of_clear {tag : Option String} (h : clear d directory tag = .ok d') :
    d.probe (clearedPath directory tag) = .ok none ∧ d' = d ∨
      ∃ node, d.node? (d.lexical (clearedPath directory tag)) = some node ∧
        d' = d.erase (d.lexical (clearedPath directory tag)) := by
  unfold clear at h
  rw [← clearedPath] at h
  simp only at h
  split at h
  · cases h
  next hprobe => exact .inl ⟨hprobe, (Except.ok.inj h).symm⟩
  next =>
    split at h
    next after hremoved =>
      obtain rfl := Except.ok.inj h
      unfold Disk.removeTree at hremoved
      split at hremoved
      · cases hremoved
      · cases hremoved
      · cases hremoved
      next changed location hfind hlocate =>
        obtain rfl := Except.ok.inj hremoved
        obtain ⟨other, hother, hnode⟩ := Disk.find_eq_ok_iff.1 hfind
        obtain rfl := Except.ok.inj (hlocate.symm.trans hother)
        rw [← Disk.eq_lexical_of_locate hlocate]
        exact .inr ⟨_, hnode, rfl⟩
    · cases h

end Cache

end StyleBundle
