import StyleBundle.Proofs.Cache.Layout
import StyleBundle.Proofs.Cache.Stored
import StyleBundle.Proofs.Transform.Parallel

/-!
# Entries that come up

Passes over different sources fill the cache entry by entry. The first one that stores makes the
directory of the entries, and after that nothing changes but that directory and the entries. So a
pass whose own entry has not been written finds what it would have found at the start, as long as
its source stands apart from the cache.
-/

namespace StyleBundle.Cache

open Transform (Alike hookFor searchOf usesCache)

variable {ι : Type} {settings : Settings} {p : Project} {d d' made : Disk} {directory path : String}
  {paths : ι → String} {written : ι → Prop} {i : ι} {entry : Entry}

/-- The directory in which the entries of the transform stand, as a path. -/
def shelf (directory : String) : String := Path.child directory Transform.tag

theorem lexical_shelf (d : Disk) (directory : String) :
    d.lexical (shelf directory) = d.lexical directory ++ [Transform.tag] :=
  Disk.lexical_child d directory isFileName_tag.1

theorem entryLocation_eq (d : Disk) (directory path : String) :
    entryLocation d directory path = d.lexical (shelf directory) ++ [fileName path] :=
  Disk.lexical_child d (shelf directory) (isName_fileName path)

/-- A path that leads neither below the cache directory nor through the place of an entry. -/
structure Beside (d : Disk) (directory path : String) : Prop where
  /-- The path does not lead below the cache directory. -/
  outside : d.lexical directory <+: d.lexical path → d.lexical path = d.lexical directory
  /-- No entry stands on its way. -/
  clear : ∀ source, entryLocation d directory source ∉ d.way path

/-- A path is beside the cache if its way leads through nothing below the cache directory. -/
theorem Beside.of_way
    (h : ∀ place ∈ d.way path, d.lexical directory <+: place → place = d.lexical directory) :
    Beside d directory path where
  outside := h _ (Disk.lexical_mem_way d path)
  clear source hmem := by
    rw [entryLocation_eq, lexical_shelf, List.append_assoc] at hmem
    have hsame := h _ hmem (List.prefix_append _ _)
    simp at hsame

/-- A path beside the cache does not lead to the directory of the entries. -/
theorem Beside.ne_shelf (h : Beside d directory path) :
    d.lexical path ≠ d.lexical (shelf directory) := by
  intro heq
  have hsame := h.outside (by rw [heq, lexical_shelf]; exact List.prefix_append _ _)
  rw [heq, lexical_shelf] at hsame
  simp at hsame

/-- Sources that stand apart from the cache: they and what their entries record are beside it, and
making the directory of the entries changes nothing about them and brings no entry to light. -/
structure Apart (d : Disk) (directory : String) (paths : ι → String) : Prop where
  /-- The sources are beside the cache. -/
  beside : ∀ i, Beside d directory (paths i)
  /-- What is recorded of them is beside the cache. -/
  recorded : ∀ i entry, readEntry d directory (paths i) Transform.tag = .ok entry →
    ∀ dependency ∈ entry.dependencies, Beside d directory (Path.tidy dependency)
  /-- The sources read the same once the directory of the entries is made. -/
  sources : ∀ made, d.makeDirectories (shelf directory) = .ok made → ∀ i,
    made.readBytes (paths i) = d.readBytes (paths i)
  /-- The entries are found the same then. -/
  entries : ∀ made, d.makeDirectories (shelf directory) = .ok made → ∀ i,
    made.find (entryPath directory (paths i) Transform.tag) =
      d.find (entryPath directory (paths i) Transform.tag)

/-- A hook, if there is one, that answers the same whatever entries come up. -/
def IgnoresEntries (hook : Option Import.Hook) (d : Disk) : Prop :=
  ∀ asker, hook = some asker → ∀ d', d'.WellFormed → Disk.Evolves IsEntryLocation d d' →
    ∀ asked target origin, asker.answer asked d' target origin = asker.answer asked d target origin

/-- A disk on which the directory of the entries has been made, and some entries have been written.
-/
structure Fills (d : Disk) (directory : String) (paths : ι → String) (made : Disk)
    (written : ι → Prop) (d' : Disk) : Prop where
  /-- The directory is made. -/
  shelved : d.makeDirectories (shelf directory) = .ok made
  /-- The disk is a tree. -/
  wellFormed : d'.WellFormed
  /-- Files come up where the entries stand, and nowhere else. -/
  evolves : Disk.Evolves
    (fun location => ∃ i, written i ∧ location = entryLocation d directory (paths i)) made d'
  /-- Nothing changes but the directory and these entries. -/
  rest : ∀ place, place ≠ d.lexical (shelf directory) →
    (∀ i, written i → place ≠ entryLocation d directory (paths i)) →
      d'.node? place = made.node? place

/-- Right behind the making of the directory, nothing else has changed. -/
theorem Fills.start (hd : d.WellFormed) (hmade : d.makeDirectories (shelf directory) = .ok made) :
    Fills d directory paths made written made :=
  ⟨hmade, (hd.makeDirectoriesWithin hmade).2, .refl made, fun _ _ _ => rfl⟩

namespace Fills

/-- The place of an entry that has not been written is as it was when the directory was made. -/
theorem node?_entry (h : Fills d directory paths made written d')
    (hdigests : ∀ i j, fileName (paths i) = fileName (paths j) → i = j)
    (hi : ¬ written i) : d'.node? (entryLocation d directory (paths i)) =
      made.node? (entryLocation d directory (paths i)) := by
  apply h.rest
  · rw [entryLocation_eq]
    simp
  · intro j hj heq
    rw [entryLocation_eq, entryLocation_eq] at heq
    have hname : fileName (paths i) = fileName (paths j) := by
      simpa using List.append_cancel_left heq
    exact hi (hdigests i j hname ▸ hj)

variable (h : Fills d directory paths made written d') (hd : d.WellFormed)

include h hd

theorem home_made : made.home = d.home := (hd.makeDirectoriesWithin h.shelved).1.home

theorem home : d'.home = d.home := h.evolves.home.trans (h.home_made hd)

/-- From the start, files come up where entries stand, and nowhere else. -/
theorem evolves_start : Disk.Evolves IsEntryLocation d d' := by
  refine ((hd.makeDirectoriesWithin h.shelved).1.mono (by simp)).trans (h.evolves.mono ?_)
  intro location hlocation
  obtain ⟨i, -, heq⟩ := hlocation
  exact heq ▸ isEntryLocation_entryLocation d directory (paths i)

/-- The directory of the entries is there. -/
theorem locate_shelf : d'.locate (shelf directory) = .ok (d.lexical (shelf directory)) ∧
    d'.hasDirectory (d.lexical (shelf directory)) = true := by
  obtain ⟨hlocate, hdirectory⟩ := hd.exists_of_makeDirectories h.shelved
  rw [Disk.lexical_congr (h.home_made hd)] at hlocate hdirectory
  exact ⟨h.evolves.locate hlocate, h.evolves.directories _ hdirectory⟩

/-- There is nothing more to be made for the entries. -/
theorem makeDirectories_eq : d'.makeDirectories (shelf directory) = .ok d' := by
  obtain ⟨hlocate, hdirectory⟩ := h.locate_shelf hd
  exact Disk.makeDirectories_of_hasDirectory hlocate hdirectory

/-- The path of an entry leads to its place. -/
theorem locate_entry (source : String) : d'.locate (entryPath directory source Transform.tag) =
    .ok (entryLocation d directory source) := by
  obtain ⟨hlocate, hdirectory⟩ := h.locate_shelf hd
  rw [entryLocation_eq]
  exact h.wellFormed.locate_child (isFileName_fileName source)
    (Path.tidy_child directory isFileName_tag.1) (Disk.fits_unlimited _) hlocate hdirectory

/-- What is beside the cache is found as it was when the directory was made. -/
theorem find_of_beside (hbeside : Beside d directory path) : d'.find path = made.find path := by
  have hstart : Fills d directory paths made written made := .start hd h.shelved
  have hway : made.way path = d.way path := Disk.way_congr (h.home_made hd) path
  have hnode {place : Location} (hplace : place ∈ made.way path)
      (hshelf : place ≠ d.lexical (shelf directory)) : d'.node? place = made.node? place :=
    h.rest place hshelf fun i _ heq => hbeside.clear (paths i) (by rwa [← heq, ← hway])
  -- On the way, the directory of the entries may be passed: it is there before and afterwards.
  have hkind : ∀ place ∈ made.way path, d'.kind? place = made.kind? place := by
    intro place hplace
    by_cases hshelf : place = d.lexical (shelf directory)
    · rw [hshelf, Disk.kind?_eq_some_false.2 (h.locate_shelf hd).2,
        Disk.kind?_eq_some_false.2 (hstart.locate_shelf hd).2]
    · rw [Disk.kind?, Disk.kind?, hnode hplace hshelf]
  unfold Disk.find
  rw [Disk.locate_congr h.evolves.home hkind]
  cases hfound : made.locate path with
  | error fault => rfl
  | ok location =>
    have hlexical : made.lexical path = location := (Disk.eq_lexical_of_locate hfound).symm
    have hshelf : location ≠ d.lexical (shelf directory) := by
      rw [← hlexical, Disk.lexical_congr (h.home_made hd)]
      exact hbeside.ne_shelf
    have hmem : location ∈ made.way path := hlexical ▸ Disk.lexical_mem_way made path
    simp only [hnode hmem hshelf]

/-- An entry that has not been written is found as at the start. -/
theorem find_entry (hapart : Apart d directory paths)
    (hdigests : ∀ i j, fileName (paths i) = fileName (paths j) → i = j) (hi : ¬ written i) :
    d'.find (entryPath directory (paths i) Transform.tag) =
      d.find (entryPath directory (paths i) Transform.tag) := by
  have hstart : Fills d directory paths made written made := .start hd h.shelved
  rw [← hapart.entries made h.shelved i]
  simp only [Disk.find, h.locate_entry hd, hstart.locate_entry hd, h.node?_entry hdigests hi]

/-- Where an entry is found at the start, the directory of the entries has been there before. -/
theorem made_eq_of_find {node : Node}
    (hfind : d.find (entryPath directory path Transform.tag) = .ok node) : made = d := by
  obtain ⟨location, hlocate, -⟩ := Disk.find_eq_ok_iff.1 hfind
  have htidy := Path.tidy_child directory isFileName_tag.1
  obtain ⟨hshelf, hdirectory⟩ := hd.locate_of_locate_child (isName_fileName path)
    (Path.ne_empty_of_tidy htidy) (Disk.fits_unlimited _) hlocate
  have hmade := h.shelved
  rw [shelf, Disk.makeDirectories_of_hasDirectory hshelf hdirectory] at hmade
  exact (Except.ok.inj hmade).symm

/-- The check of an entry that has not been written comes to the same result as at the start. -/
theorem isValid_eq (hapart : Apart d directory paths)
    (hdigests : ∀ i j, fileName (paths i) = fileName (paths j) → i = j) (hi : ¬ written i) :
    isValid d' directory (paths i) Transform.tag = isValid d directory (paths i) Transform.tag := by
  have hentry := h.find_entry hd hapart hdigests hi
  have hsame {node : Node} {file : String}
      (hfind : d.find (entryPath directory (paths i) Transform.tag) = .ok node)
      (hbeside : Beside d directory file) : d'.find file = d.find file := by
    rw [h.find_of_beside hd hbeside, h.made_eq_of_find hd hfind]
  refine isValid_congr hentry (fun node hfind => hsame hfind (hapart.beside i)) ?_
  intro entry hread dependency hdependency
  obtain ⟨text, htext⟩ := exists_text_of_readEntry hread
  obtain ⟨bytes, changed, hlocate, hnode, -⟩ := Disk.readText_eq_ok_iff.1 htext
  exact hsame (Disk.find_eq_ok_iff.2 ⟨_, hlocate, hnode⟩)
    (hapart.recorded i entry hread dependency hdependency)

/-- The text of a source is read as at the start. -/
theorem readText_eq (hapart : Apart d directory paths) (i : ι) :
    d'.readText (paths i) = d.readText (paths i) := by
  have hbytes : d'.readBytes (paths i) = made.readBytes (paths i) := by
    simp only [Disk.readBytes, h.find_of_beside hd (hapart.beside i)]
  simp only [Disk.readText, hbytes, hapart.sources made h.shelved i]

/-- A text has the same dependencies as at the start. -/
theorem dependencies_eq {s : Dependency.Search} (hs : SeeksStyles s) (halike : s.AnswersAlike d d')
    (text : String) : Dependency.dependencies d' s path text =
      Dependency.dependencies d s path text := by
  have hevolves := h.evolves_start hd
  have honly : OnlyEntriesAppear d d' := by
    intro location bytes changed hnode
    by_cases hentry : IsEntryLocation location
    · exact .inl hentry
    · exact .inr ⟨bytes, changed, (hevolves.files location hentry bytes changed).1 hnode⟩
  refine Dependency.dependencies_eq hd h.wellFormed hevolves.home halike
    (hasNoMore_of_onlyEntriesAppear hd h.wellFormed hevolves.home honly hs) ?_ text
  intro origin target found hresolve
  obtain ⟨above, stem, extension, hextension, ⟨bytes, changed, hnode⟩, hspelling⟩ :=
    Dependency.exists_named_file_of_resolve hd (fun e he => (hs e he).1) hresolve
  have hentry : ¬ IsEntryLocation (above ++ [stem ++ "." ++ extension]) :=
    not_isEntryLocation (hs extension hextension).2
  have hnode' := (hevolves.files _ hentry bytes changed).2 hnode
  have hlocate := hd.locate_of_mem_spellings hnode hspelling
  have hlocate' := h.wellFormed.locate_of_mem_spellings hnode' hspelling
  exact ⟨Disk.isFile_iff.2 ⟨_, bytes, changed, hlocate', hnode'⟩,
    by rw [Disk.readText_of_locate hlocate' hnode', Disk.readText_of_locate hlocate hnode]⟩

/-- The disk says the same about a source whose entry has not been written as the one at the start.
-/
theorem alike (hcache : p.cache = some directory) (hhook : IgnoresEntries (hookFor settings p) d)
    (hapart : Apart d directory paths)
    (hdigests : ∀ i j, fileName (paths i) = fileName (paths j) → i = j) (hi : ¬ written i) :
    Alike settings p (paths i) d d' where
  home := h.home hd
  restore huses sheet hpath := by
    have hp : p.usesCache = true := (Bool.and_eq_true_iff.1 huses).2
    have hread := readEntry_congr (h.find_entry hd hapart hdigests hi)
    simp only [restore, hp, hcache, hpath, h.isValid_eq hd hapart hdigests hi, hread]
  text := h.readText_eq hd hapart i
  dependencies request hrequest text := by
    refine h.dependencies_eq hd seeksStyles_searchOf ?_ text
    intro hook hsome asked target origin
    have hasker : hookFor settings p = some hook := hrequest ▸ hsome
    exact hhook hook hasker d' h.wellFormed (h.evolves_start hd) asked target origin

end Fills

/-! ## Writing entries -/

/-- Writing an entry starts with the directory of the entries, and goes on from there. -/
theorem writeEntry_congr (htag : entry.tag = Transform.tag)
    (hshelf : d'.makeDirectories (shelf directory) = d.makeDirectories (shelf directory)) :
    writeEntry d' directory entry = writeEntry d directory entry := by
  have hparent : Path.parent (entryPath directory entry.path entry.tag) = shelf directory := by
    rw [htag]
    exact parent_entryPath directory entry.path isFileName_tag.1
  simp only [writeEntry_eq, hparent, hshelf]

/-- Where the directory of the entries is there, an entry is written unless a directory stands in
its place. -/
theorem writeEntry_of_locate {location : Location} (htag : entry.tag = Transform.tag)
    (hshelf : d.makeDirectories (shelf directory) = .ok d)
    (hlocate : d.locate (entryPath directory entry.path Transform.tag) = .ok location) :
    writeEntry d directory entry =
      match d.node? location with
      | some (.directory _) =>
        .error (.cache (.unwritable (entryPath directory entry.path Transform.tag)
          (.refused .isDirectory (entryPath directory entry.path Transform.tag))))
      | _ => .ok (d.place location
          (.file (Text.Utf8.encode entry.print.toList) d.clock)) := by
  have hparent := parent_entryPath directory entry.path isFileName_tag.1
  rw [← shelf] at hparent
  simp only [writeEntry_eq, htag, hparent, hshelf, Except.bind, Disk.writeText, Disk.writeBytes,
    hlocate]
  cases d.node? location with
  | none => rfl
  | some node => cases node <;> rfl

namespace Fills

variable {after after' : Disk}

/-- Where the directory of the entries has been made, writing an entry changes its place, and the
directory. -/
theorem node?_of_writeEntry (h : Fills d directory paths made written d') (hd : d.WellFormed)
    (htag : entry.tag = Transform.tag) (hwritten : writeEntry d' directory entry = .ok after)
    {place : Location} (hne : place ≠ entryLocation d directory entry.path)
    (hshelf : place ≠ d.lexical (shelf directory)) : after.node? place = d'.node? place := by
  rw [writeEntry_of_locate htag (h.makeDirectories_eq hd) (h.locate_entry hd entry.path)]
    at hwritten
  split at hwritten
  · cases hwritten
  · obtain rfl := Except.ok.inj hwritten
    refine (Disk.node?_place_of_ne hne _).resolve_right fun habove => hshelf ?_
    rw [habove.2, entryLocation_eq, List.dropLast_concat]

/-- An entry that is written is one more that has come up. -/
theorem step (h : Fills d directory paths made written d') (hd : d.WellFormed)
    (hpath : entry.path = paths i) (htag : entry.tag = Transform.tag)
    (hwritten : writeEntry d' directory entry = .ok after) :
    Fills d directory paths made (fun j => written j ∨ j = i) after := by
  obtain ⟨location, stamp, hlexical, -, hwriting, hwell, -⟩ :=
    evolves_writeEntry h.wellFormed hwritten
  rw [htag, Disk.lexical_congr (h.home hd), ← entryLocation, hpath] at hlexical
  refine ⟨h.shelved, hwell, ?_, ?_⟩
  · refine (h.evolves.mono fun place hplace => ?_).trans (hwriting.mono fun place hplace => ?_)
    · obtain ⟨j, hj, heq⟩ := hplace
      exact ⟨j, .inl hj, heq⟩
    · exact ⟨i, .inr rfl, hplace.trans hlexical.symm⟩
  · intro place hshelf hothers
    have hne : place ≠ entryLocation d directory entry.path := hpath ▸ hothers i (.inr rfl)
    rw [h.node?_of_writeEntry hd htag hwritten hne hshelf]
    exact h.rest place hshelf fun j hj => hothers j (.inl hj)

/-- Writing an entry leaves the other entries alone. -/
theorem find_of_writeEntry (h : Fills d directory paths made written d') (hd : d.WellFormed)
    (hdigests : ∀ i j, fileName (paths i) = fileName (paths j) → i = j)
    (hpath : entry.path = paths i) (htag : entry.tag = Transform.tag)
    (hwritten : writeEntry d' directory entry = .ok after) {j : ι} (hj : j ≠ i) :
    after.find (entryPath directory (paths j) Transform.tag) =
      d'.find (entryPath directory (paths j) Transform.tag) := by
  have hne : entryLocation d directory (paths j) ≠ entryLocation d directory entry.path := by
    rw [hpath, entryLocation_eq, entryLocation_eq]
    intro heq
    exact hj (hdigests j i (by simpa using List.append_cancel_left heq))
  have hshelf : entryLocation d directory (paths j) ≠ d.lexical (shelf directory) := by
    rw [entryLocation_eq]
    simp
  have hnode := h.node?_of_writeEntry hd htag hwritten hne hshelf
  simp only [Disk.find, (h.step hd hpath htag hwritten).locate_entry hd, h.locate_entry hd, hnode]

/-- Writing an entry that has not been written succeeds or fails as it would have at the start. -/
theorem writeEntry_start (h : Fills d directory paths made written d') (hd : d.WellFormed)
    (hdigests : ∀ i j, fileName (paths i) = fileName (paths j) → i = j) (hi : ¬ written i)
    (hpath : entry.path = paths i) (htag : entry.tag = Transform.tag) :
    (∃ failure, writeEntry d directory entry = .error failure ∧
        writeEntry d' directory entry = .error failure) ∨
      ∃ after after', writeEntry d directory entry = .ok after ∧
        writeEntry d' directory entry = .ok after' := by
  have hstart : Fills d directory paths made written made := .start hd h.shelved
  have hfirst : writeEntry d directory entry = writeEntry made directory entry :=
    writeEntry_congr htag (h.shelved.trans (hstart.makeDirectories_eq hd).symm)
  have hnode := h.node?_entry hdigests hi
  rw [← hpath] at hnode
  rw [hfirst,
    writeEntry_of_locate htag (hstart.makeDirectories_eq hd) (hstart.locate_entry hd entry.path),
    writeEntry_of_locate htag (h.makeDirectories_eq hd) (h.locate_entry hd entry.path), hnode]
  split
  · exact .inl ⟨_, rfl, rfl⟩
  · exact .inr ⟨_, _, rfl, rfl⟩

end Fills

/-! ## The disk of a session -/

/-- What becomes of a disk on which passes over different sources run: nothing, or entries come up.
-/
inductive Grows (settings : Settings) (p : Project) (d : Disk) (paths : ι → String)
    (written : ι → Prop) : Disk → Prop
  /-- No entry has been written. -/
  | unwritten (hnone : ∀ i, ¬ written i) : Grows settings p d paths written d
  /-- Some entries have been written. -/
  | filled {directory : String} {made d' : Disk} (hcache : p.cache = some directory)
      (huses : usesCache settings p = true) (h : Fills d directory paths made written d') :
      Grows settings p d paths written d'

/-- Sources that stand apart from the cache, wherever that is. -/
def StandApart (settings : Settings) (p : Project) (d : Disk) (paths : ι → String) : Prop :=
  usesCache settings p = true → ∀ directory, p.cache = some directory → Apart d directory paths

namespace Grows

variable {after : Disk}

/-- The disk stays a tree. -/
theorem wellFormed (h : Grows settings p d paths written d') (hd : d.WellFormed) :
    d'.WellFormed := by
  cases h with
  | unwritten => exact hd
  | filled _ _ h => exact h.wellFormed

/-- The disk says the same about a source whose entry has not been written as at the start. -/
theorem alike (h : Grows settings p d paths written d') (hd : d.WellFormed)
    (hhook : IgnoresEntries (hookFor settings p) d) (hapart : StandApart settings p d paths)
    (hdigests : ∀ i j, fileName (paths i) = fileName (paths j) → i = j) (hi : ¬ written i) :
    Alike settings p (paths i) d d' := by
  cases h with
  | unwritten => exact ⟨rfl, fun _ _ _ => rfl, rfl, fun _ _ _ => rfl⟩
  | filled hcache huses h => exact h.alike hd hcache hhook (hapart huses _ hcache) hdigests hi

/-- An entry that has not been written is found as at the start. -/
theorem find_entry (h : Grows settings p d paths written d') (hd : d.WellFormed)
    (hapart : StandApart settings p d paths)
    (hdigests : ∀ i j, fileName (paths i) = fileName (paths j) → i = j) (hi : ¬ written i)
    (hcache : p.cache = some directory) :
    d'.find (entryPath directory (paths i) Transform.tag) =
      d.find (entryPath directory (paths i) Transform.tag) := by
  cases h with
  | unwritten => rfl
  | filled hcache' huses h =>
    obtain rfl := Option.some.inj (hcache'.symm.trans hcache)
    exact h.find_entry hd (hapart huses _ hcache) hdigests hi

/-- An entry that has not been written can be written exactly if it could at the start, and fails in
the same way otherwise. One that is written is one more that has come up, and the others stay. -/
theorem write (h : Grows settings p d paths written d') (hd : d.WellFormed)
    (hapart : StandApart settings p d paths)
    (hdigests : ∀ i j, fileName (paths i) = fileName (paths j) → i = j) (hi : ¬ written i)
    (hcache : p.cache = some directory) (huses : usesCache settings p = true)
    (hpath : entry.path = paths i) (htag : entry.tag = Transform.tag) :
    (∃ failure, writeEntry d directory entry = .error failure ∧
        writeEntry d' directory entry = .error failure) ∨
      ∃ after after', writeEntry d directory entry = .ok after ∧
        writeEntry d' directory entry = .ok after' ∧
        Grows settings p d paths (fun j => written j ∨ j = i) after' ∧
        ∀ j, j ≠ i → after'.find (entryPath directory (paths j) Transform.tag) =
          d'.find (entryPath directory (paths j) Transform.tag) := by
  cases h with
  | filled hcache' _ h =>
    obtain rfl := Option.some.inj (hcache'.symm.trans hcache)
    refine (h.writeEntry_start hd hdigests hi hpath htag).imp_right ?_
    rintro ⟨after, after', hfirst, hwritten⟩
    exact ⟨after, after', hfirst, hwritten, .filled hcache huses (h.step hd hpath htag hwritten),
      fun j hj => h.find_of_writeEntry hd hdigests hpath htag hwritten hj⟩
  | unwritten hnone =>
    cases hwritten : writeEntry d directory entry with
    | error failure => exact .inl ⟨failure, rfl, rfl⟩
    | ok after =>
      -- The directory of the entries is made now.
      obtain ⟨made, hmade, -⟩ := exists_made_of_writeEntry hwritten
      rw [htag, parent_entryPath directory entry.path isFileName_tag.1, ← shelf] at hmade
      have hstart : Fills d directory paths made written made := .start hd hmade
      have hsame : writeEntry made directory entry = .ok after :=
        (writeEntry_congr htag ((hstart.makeDirectories_eq hd).trans hmade.symm)).trans hwritten
      have hstep := hstart.step hd hpath htag hsame
      refine .inr ⟨after, after, rfl, rfl, .filled hcache huses hstep, fun j hj => ?_⟩
      rw [hstart.find_of_writeEntry hd hdigests hpath htag hsame hj]
      exact (hapart huses directory hcache).entries made hmade j

end Grows

end StyleBundle.Cache
