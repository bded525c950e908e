import StyleBundle.Cache.Store
import StyleBundle.Proofs.Cache.Entry
import StyleBundle.Proofs.Disk.Change
import StyleBundle.Proofs.Path.Normalise

/-!
# Entries on the disk

The entries of all sources stand in one directory, in files that are named by digests. Writing an
entry changes its own file only, reading gives it back, and a check says exactly that the entry is
newer than its source and no older than what it depends on.
-/

namespace StyleBundle

namespace Digest.Sha1

/-- A digest is written without slashes. -/
theorem not_mem_hexDigest (message : List UInt8) : '/' ∉ (hexDigest message).toList := by
  have hdigit : ∀ n < 16, Nat.digitChar n ≠ '/' := by decide
  have hword (w : UInt32) : '/' ∉ hexWord w := by
    intro h
    obtain ⟨i, -, hi⟩ := List.mem_map.1 h
    exact hdigit _ (Nat.mod_lt _ (by decide)) hi
  simp [hexDigest, hword]

end Digest.Sha1

namespace Cache

variable {d d' : Disk} {directory path tag : String}

/-- The name of an entry's file is a name. -/
theorem isName_fileName (path : String) : Path.IsName (fileName path) := by
  apply Path.isName_of_two_lt
  · simp [fileName, entrySuffix]
  · simp [fileName, entrySuffix, Digest.Sha1.not_mem_hexDigest]

/-- A location that is named in the way of entries. -/
def IsEntryLocation (location : Location) : Prop :=
  ∃ above stem, location = above ++ [stem ++ entrySuffix]

/-- The entry of a source stands under the name for it. -/
theorem exists_lexical_entryPath (d : Disk) (directory path tag : String) :
    ∃ above, d.lexical (entryPath directory path tag) = above ++ [fileName path] := by
  obtain ⟨above, habove⟩ :=
    Path.exists_segments_child (Path.child directory tag) (isName_fileName path)
  exact Disk.exists_lexical_of_isName (isName_fileName path) habove

/-- The entry of a source stands where entries stand. -/
theorem isEntryLocation_lexical (d : Disk) (directory path tag : String) :
    IsEntryLocation (d.lexical (entryPath directory path tag)) := by
  obtain ⟨above, habove⟩ := exists_lexical_entryPath d directory path tag
  exact ⟨above, _, habove⟩

/-- Entries of sources with different digests stand at different locations. -/
theorem fileName_eq_of_lexical_eq {other : String}
    (h : d.lexical (entryPath directory other tag) = d.lexical (entryPath directory path tag)) :
    fileName other = fileName path := by
  obtain ⟨above, habove⟩ := exists_lexical_entryPath d directory path tag
  obtain ⟨above', habove'⟩ := exists_lexical_entryPath d directory other tag
  have hlast := congrArg List.getLast? h
  rwa [habove, habove', List.getLast?_concat, List.getLast?_concat, Option.some.injEq] at hlast

/-- A result of which something holds is there. -/
theorem exists_ok_of_any {ε α : Type} {result : Except ε α} {p : α → Bool}
    (h : result.toOption.any p = true) : ∃ a, result = .ok a ∧ p a = true := by
  cases result with
  | error failure => cases h
  | ok a => exact ⟨a, rfl, h⟩

/-! ## Writing and reading -/

variable [Limits]

/-- Writing an entry makes its directory and writes its file, and a refusal is a fault of the cache.
-/
theorem writeEntry_eq (d : Disk) (directory : String) (entry : Entry) :
    writeEntry d directory entry =
      match (d.makeDirectories (Path.parent (entryPath directory entry.path entry.tag))).bind
          (·.writeText (entryPath directory entry.path entry.tag) entry.print) with
      | .ok d => .ok d
      | .error (.refused cause p) =>
        .error (.cache (.unwritable (entryPath directory entry.path entry.tag) (.refused cause p)))
      | .error fault => .error (.disk fault) := by
  simp only [writeEntry, attemptEntry, Disk.makeDirectories]
  cases (d.attemptDirectories (Path.parent (entryPath directory entry.path entry.tag))).result.bind
    (·.writeText (entryPath directory entry.path entry.tag) entry.print) with
  | ok d => rfl
  | error fault => cases fault <;> rfl

/-- Trying to write an entry succeeds with the disk on which it is written, or leaves the
directories that could be made for it. -/
theorem attemptEntry_cases (d : Disk) (directory : String) (entry : Entry) :
    (∃ d', attemptEntry d directory entry = (.ok (), d') ∧
        writeEntry d directory entry = .ok d') ∨
      ∃ failure, attemptEntry d directory entry = (.error failure,
        (d.attemptDirectories (Path.parent (entryPath directory entry.path entry.tag))).disk) := by
  unfold writeEntry
  cases hattempt : attemptEntry d directory entry with
  | mk outcome d' =>
  unfold attemptEntry at hattempt
  simp only at hattempt
  split at hattempt
  · obtain ⟨rfl, rfl⟩ := Prod.mk.inj hattempt
    exact .inl ⟨_, rfl, rfl⟩
  · obtain ⟨rfl, rfl⟩ := Prod.mk.inj hattempt
    exact .inr ⟨_, rfl⟩
  · obtain ⟨rfl, rfl⟩ := Prod.mk.inj hattempt
    exact .inr ⟨_, rfl⟩

theorem attemptEntry_of_writeEntry {entry : Entry} (h : writeEntry d directory entry = .ok d') :
    attemptEntry d directory entry = (.ok (), d') := by
  rcases attemptEntry_cases d directory entry with ⟨other, hattempt, hwritten⟩ | ⟨failure, hfails⟩
  · rw [hattempt, Except.ok.inj (h.symm.trans hwritten)]
  · rw [writeEntry, hfails] at h
    cases h

/-- An entry that is written is written into a directory that has been made. -/
theorem exists_made_of_writeEntry {entry : Entry} (h : writeEntry d directory entry = .ok d') :
    ∃ made, d.makeDirectories (Path.parent (entryPath directory entry.path entry.tag)) = .ok made ∧
      made.writeText (entryPath directory entry.path entry.tag) entry.print = .ok d' := by
  rw [writeEntry_eq] at h
  split at h
  next written hwritten =>
    obtain rfl := Except.ok.inj h
    cases hmade : d.makeDirectories
        (Path.parent (entryPath directory entry.path entry.tag)) with
    | error fault => simp [hmade, Except.bind] at hwritten
    | ok made =>
      rw [hmade] at hwritten
      exact ⟨made, rfl, hwritten⟩
  · cases h
  · cases h

/-- Writing an entry puts it into its file, with the time of the write, and changes no other file.
-/
theorem evolves_writeEntry (hd : d.WellFormed) {entry : Entry}
    (h : writeEntry d directory entry = .ok d') : ∃ location stamp,
    d.lexical (entryPath directory entry.path entry.tag) = location ∧
      d'.locate (entryPath directory entry.path entry.tag) = .ok location ∧
      Disk.Evolves (· = location) d d' ∧ d'.WellFormed ∧
      d'.node? location = some (.file (Text.Utf8.encode entry.print.toList) stamp) ∧
      d.clock.units ≤ stamp.units ∧ d'.clock = stamp.next := by
  obtain ⟨made, hmade, hwritten⟩ := exists_made_of_writeEntry h
  obtain ⟨hmaking, hwell⟩ := hd.makeDirectoriesWithin hmade
  obtain ⟨location, hlocate, hwriting, hwell', hnode, hclock⟩ := hwell.writeBytes hwritten
  refine ⟨location, made.clock, ?_, hwriting.locate hlocate, ?_, hwell', hnode, hmaking.clock,
    hclock⟩
  · rw [Disk.eq_lexical_of_locate hlocate, Disk.lexical_congr hmaking.home]
  · exact (hmaking.mono (by simp)).trans hwriting

/-- An entry that stands in the file of a source is read back. -/
theorem readEntry_eq_ok {entry : Entry} {location : Location} {stamp : Stamp}
    (hlocate : d.locate (entryPath directory path tag) = .ok location)
    (hnode : d.node? location = some (.file (Text.Utf8.encode entry.print.toList) stamp))
    (hversion : entry.version = formatVersion) :
    readEntry d directory path tag = .ok entry := by
  have htext : d.readText (entryPath directory path tag) = .ok entry.print :=
    (Disk.readText_of_locate hlocate hnode).trans entry.textOf_encode_print
  have hread : Entry.Reader.read entry.print = .ok entry := entry.read_print
  simp only [readEntry, htext, hread, hversion, if_true]

/-- An entry that is written is read back. -/
theorem readEntry_of_writeEntry (hd : d.WellFormed) (entry : Entry)
    (hversion : entry.version = formatVersion) (h : writeEntry d directory entry = .ok d') :
    readEntry d' directory entry.path entry.tag = .ok entry := by
  obtain ⟨location, stamp, -, hlocate, -, -, hnode, -⟩ := evolves_writeEntry hd h
  exact readEntry_eq_ok hlocate hnode hversion

/-- The file of an entry that is written holds it. -/
theorem readBytes_of_writeEntry (hd : d.WellFormed) {entry : Entry}
    (h : writeEntry d directory entry = .ok d') :
    d'.readBytes (entryPath directory entry.path entry.tag) =
      .ok (Text.Utf8.encode entry.print.toList) := by
  obtain ⟨location, stamp, -, hlocate, -, -, hnode, -⟩ := evolves_writeEntry hd h
  exact Disk.readBytes_eq_ok_iff.2 ⟨location, stamp, hlocate, hnode⟩

/-- An entry that the disk takes is on a disk behind that. -/
theorem exists_writeEntry_eq_ok {entry : Entry}
    (h : (writeEntry d directory entry).isOk = true) :
    ∃ d', writeEntry d directory entry = .ok d' := by
  cases hwritten : writeEntry d directory entry with
  | error failure => simp [hwritten, Except.isOk, Except.toBool] at h
  | ok d' => exact ⟨d', rfl⟩

/-- An entry is read from text. -/
theorem exists_text_of_readEntry [Entry.Reader] {entry : Entry}
    (h : readEntry d directory path tag = .ok entry) :
    ∃ text, d.readText (entryPath directory path tag) = .ok text := by
  unfold readEntry at h
  simp only at h
  split at h
  · cases h
  · cases h
  next text htext => exact ⟨text, htext⟩

/-! ## Checking -/

/-- A probe finds what a look finds. -/
theorem probe_eq_ok_some {node : Node} :
    d.probe path = .ok (some node) ↔ d.find path = .ok node := by
  unfold Disk.probe
  split
  next found hfound => simp [hfound]
  next hrefused => simp [hrefused]
  next fault _ hfault => simp [hfault]

/-- Where there is no entry, none may be used. -/
theorem isValid_of_probe_eq_none [Entry.Reader]
    (h : d.probe (entryPath directory path tag) = .ok none) :
    isValid d directory path tag = .ok (false, []) := by
  simp only [isValid, isNewer, h]

/-- A file counts as newer than a source if both are there and its stamp is the later one. -/
theorem isNewer_eq_true {file source : String} : isNewer d file source = .ok true ↔
    ∃ written changed, d.find file = .ok written ∧ d.find source = .ok changed ∧
      changed.stamp.units < written.stamp.units := by
  simp only [← probe_eq_ok_some]
  unfold isNewer
  cases hfile : d.probe file with
  | error fault => simp
  | ok found =>
    cases found with
    | none => simp
    | some written =>
      cases hsource : d.probe source with
      | error fault => simp
      | ok found =>
        cases found with
        | none => simp
        | some changed => simp [Stamp.isAfter]

/-- Dependencies count as unchanged if each is there and none has a later stamp. -/
theorem areUnchanged_eq_true {since : Stamp} {dependencies : List String} :
    areUnchanged d since dependencies = .ok true ↔
      ∀ dependency ∈ dependencies, ∃ node, d.find (Path.tidy dependency) = .ok node ∧
        node.stamp.units ≤ since.units := by
  have hone (dependency : String) : isUnchanged d since dependency = .ok true ↔
      ∃ node, d.find (Path.tidy dependency) = .ok node ∧ node.stamp.units ≤ since.units := by
    simp only [← probe_eq_ok_some]
    unfold isUnchanged
    cases hprobe : d.probe (Path.tidy dependency) with
    | error fault => simp
    | ok found =>
      cases found with
      | none => simp
      | some node => simp [Stamp.isAfter]
  induction dependencies with
  | nil => simp [areUnchanged]
  | cons dependency rest ih =>
    rw [List.forall_mem_cons, ← hone dependency, areUnchanged]
    cases hunchanged : isUnchanged d since dependency with
    | error fault => simp
    | ok unchanged =>
      cases unchanged with
      | false => simp
      | true => simpa using ih

/-- An entry may be used again exactly if it can be read, is newer than its source, and is no older
than any of its dependencies. -/
theorem isValid_eq_true [Entry.Reader] {records : List LogRecord} :
    isValid d directory path tag = .ok (true, records) ↔ records = [] ∧
      ∃ written changed entry, d.find (entryPath directory path tag) = .ok written ∧
        d.find path = .ok changed ∧ changed.stamp.units < written.stamp.units ∧
        readEntry d directory path tag = .ok entry ∧
        ∀ dependency ∈ entry.dependencies, ∃ node, d.find (Path.tidy dependency) = .ok node ∧
          node.stamp.units ≤ written.stamp.units := by
  constructor
  · intro h
    unfold isValid at h
    simp only at h
    split at h
    · cases h
    · cases h
    next hnewer =>
      split at h
      · cases h
      · cases h
      next entry hentry =>
        split at h
        · cases h
        next written hwritten =>
          split at h
          next unchanged hunchanged =>
            obtain ⟨rfl, rfl⟩ : unchanged = true ∧ [] = records := by simpa using h
            obtain ⟨written', changed, hfile, hsource, hless⟩ := isNewer_eq_true.1 hnewer
            obtain rfl : written' = written := by
              simpa [Disk.find?, hfile, Except.toOption] using hwritten
            exact ⟨rfl, written', changed, entry, hfile, hsource, hless, hentry,
              areUnchanged_eq_true.1 hunchanged⟩
          · cases h
  · rintro ⟨rfl, written, changed, entry, hfile, hsource, hless, hentry, hdependencies⟩
    have hnewer := isNewer_eq_true.2 ⟨written, changed, hfile, hsource, hless⟩
    have hunchanged := areUnchanged_eq_true.2 hdependencies
    have hfound : d.find? (entryPath directory path tag) = some written := by
      simp [Disk.find?, hfile, Except.toOption]
    simp only [isValid, hnewer, hentry, hfound, hunchanged]

/-- An entry that is read may be used again exactly if its source is older and no dependency is
newer. -/
theorem isValid_iff_of_readEntry [Entry.Reader] {entry : Entry} {written : Node}
    {records : List LogRecord}
    (hfind : d.find (entryPath directory path tag) = .ok written)
    (hread : readEntry d directory path tag = .ok entry) :
    isValid d directory path tag = .ok (true, records) ↔ records = [] ∧
      (∃ changed, d.find path = .ok changed ∧ changed.stamp.units < written.stamp.units) ∧
      ∀ dependency ∈ entry.dependencies, ∃ node, d.find (Path.tidy dependency) = .ok node ∧
        node.stamp.units ≤ written.stamp.units := by
  rw [isValid_eq_true]
  constructor
  · rintro ⟨hrecords, node, changed, read, hfound, hsource, hless, hread', hdependencies⟩
    obtain rfl := Except.ok.inj (hfind.symm.trans hfound)
    obtain rfl := Except.ok.inj (hread.symm.trans hread')
    exact ⟨hrecords, ⟨changed, hsource, hless⟩, hdependencies⟩
  · rintro ⟨hrecords, ⟨changed, hsource, hless⟩, hdependencies⟩
    exact ⟨hrecords, _, changed, entry, hfind, hsource, hless, hread, hdependencies⟩

/-- Dependencies that are there can be compared with any time. -/
theorem exists_areUnchanged_eq_ok (since : Stamp) {dependencies : List String}
    (h : ∀ dependency ∈ dependencies, ∃ node, d.find (Path.tidy dependency) = .ok node) :
    ∃ unchanged, areUnchanged d since dependencies = .ok unchanged := by
  induction dependencies with
  | nil => exact ⟨true, rfl⟩
  | cons dependency rest ih =>
    obtain ⟨node, hnode⟩ := h dependency (List.mem_cons_self ..)
    obtain ⟨unchanged, hrest⟩ := ih fun other hother => h other (List.mem_cons_of_mem _ hother)
    simp only [areUnchanged, isUnchanged, probe_eq_ok_some.2 hnode]
    cases node.stamp.isAfter since with
    | true => exact ⟨false, rfl⟩
    | false => exact ⟨unchanged, hrest⟩

/-- The check of an entry that is read comes to a result, if its source can be looked for and its
dependencies are there. -/
theorem exists_isValid_eq_ok [Entry.Reader] {entry : Entry} {written : Node}
    (hfind : d.find (entryPath directory path tag) = .ok written)
    (hread : readEntry d directory path tag = .ok entry)
    (hprobe : ∃ found, d.probe path = .ok found)
    (hdependencies : ∀ dependency ∈ entry.dependencies, ∃ node,
      d.find (Path.tidy dependency) = .ok node) :
    ∃ valid, isValid d directory path tag = .ok (valid, []) := by
  obtain ⟨unchanged, hunchanged⟩ := exists_areUnchanged_eq_ok written.stamp hdependencies
  obtain ⟨found, hprobe⟩ := hprobe
  have hentry : d.find? (entryPath directory path tag) = some written := by
    simp [Disk.find?, hfind, Except.toOption]
  simp only [isValid, isNewer, probe_eq_ok_some.2 hfind, hprobe]
  cases found with
  | none => exact ⟨false, rfl⟩
  | some changed =>
    simp only
    cases written.stamp.isAfter changed.stamp with
    | false => exact ⟨false, rfl⟩
    | true =>
      simp only [hread, hentry, hunchanged]
      exact ⟨unchanged, rfl⟩

/-- The check looks at the entry, at its source and at the recorded dependencies only. -/
theorem isValid_of_find_kept [Entry.Reader] {entry : Entry} {records : List LogRecord}
    (hvalid : isValid d directory path tag = .ok (true, records))
    (hread : readEntry d directory path tag = .ok entry)
    (hkept : ∀ file ∈ entryPath directory path tag :: path :: entry.dependencies.map Path.tidy,
      ∀ node, d.find file = .ok node → d'.find file = .ok node) :
    readEntry d' directory path tag = .ok entry ∧
      isValid d' directory path tag = .ok (true, records) := by
  obtain ⟨hrecords, written, changed, other, hfile, hsource, hless, hother, hdependencies⟩ :=
    isValid_eq_true.1 hvalid
  obtain rfl := Except.ok.inj (hread.symm.trans hother)
  have hfile' := hkept _ (by simp) _ hfile
  have hread' : readEntry d' directory path tag = .ok entry := by
    have htext : d'.readText (entryPath directory path tag) =
        d.readText (entryPath directory path tag) := by
      simp only [Disk.readText, Disk.readBytes, hfile, hfile']
    simp only [readEntry, htext]
    exact hread
  refine ⟨hread', isValid_eq_true.2 ⟨hrecords, written, changed, entry, hfile',
    hkept _ (by simp) _ hsource, hless, hread', ?_⟩⟩
  intro dependency hdependency
  obtain ⟨node, hnode, hstamp⟩ := hdependencies dependency hdependency
  have hmem := List.mem_map_of_mem (f := Path.tidy) hdependency
  exact ⟨node, hkept _ (by simp [hmem]) _ hnode, hstamp⟩

/-! ## The same entry on another disk -/

theorem probe_congr (h : d'.find path = d.find path) : d'.probe path = d.probe path := by
  simp only [Disk.probe, h]

/-- An entry is read alike where the same is found in its place. -/
theorem readEntry_congr [Entry.Reader]
    (h : d'.find (entryPath directory path tag) = d.find (entryPath directory path tag)) :
    readEntry d' directory path tag = readEntry d directory path tag := by
  simp only [readEntry, Disk.readText, Disk.readBytes, h]

/-- Dependencies are compared alike where the same is found in their places. -/
theorem areUnchanged_congr (since : Stamp) {dependencies : List String}
    (h : ∀ dependency ∈ dependencies,
      d'.find (Path.tidy dependency) = d.find (Path.tidy dependency)) :
    areUnchanged d' since dependencies = areUnchanged d since dependencies := by
  induction dependencies with
  | nil => rfl
  | cons dependency rest ih =>
    have hrest := ih fun other hother => h other (List.mem_cons_of_mem _ hother)
    have hprobe := probe_congr (h dependency (List.mem_cons_self ..))
    simp only [areUnchanged, isUnchanged, hprobe, hrest]

/-- The check comes to the same result where the same is found in the place of the entry, and also
in those of its source and its dependencies if there is an entry. -/
theorem isValid_congr [Entry.Reader]
    (hentry : d'.find (entryPath directory path tag) = d.find (entryPath directory path tag))
    (hsource : ∀ node, d.find (entryPath directory path tag) = .ok node →
      d'.find path = d.find path)
    (hdependencies : ∀ entry, readEntry d directory path tag = .ok entry →
      ∀ dependency ∈ entry.dependencies,
        d'.find (Path.tidy dependency) = d.find (Path.tidy dependency)) :
    isValid d' directory path tag = isValid d directory path tag := by
  have hnewer : isNewer d' (entryPath directory path tag) path =
      isNewer d (entryPath directory path tag) path := by
    unfold isNewer
    rw [probe_congr hentry]
    cases hprobe : d.probe (entryPath directory path tag) with
    | error fault => rfl
    | ok found =>
      cases found with
      | none => rfl
      | some written => simp only [probe_congr (hsource written (probe_eq_ok_some.1 hprobe))]
  simp only [isValid, hnewer, readEntry_congr hentry, Disk.find?, hentry]
  cases hread : readEntry d directory path tag with
  | error failure => cases failure <;> rfl
  | ok entry => simp only [areUnchanged_congr _ (hdependencies entry hread)]

end Cache

end StyleBundle
