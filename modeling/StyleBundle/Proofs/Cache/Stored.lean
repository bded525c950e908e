import StyleBundle.Proofs.Cache.Store
import StyleBundle.Proofs.Dependency.Transfer
import StyleBundle.Proofs.Transform.Pass

/-!
# Stored entries over time

A transform stores an entry on one disk; later the entry is checked on another. What the check looks
at and what happened to the disk in between decide together what the entry still says about its
source.
-/

namespace StyleBundle.Cache

open Transform (searchFor Stores)

variable {settings : Settings} {directory path : String} {before after d d' : Disk} {entry : Entry}
  {location : Location}

/-! ## What a search finds is no entry -/

/-- A search for names that no entry has: each of its extensions is a name for itself and ends in
another letter than the entries. -/
def SeeksStyles (s : Dependency.Search) : Prop :=
  ∀ extension ∈ s.extensions, (2 ≤ extension.toList.length ∧ '/' ∉ extension.toList) ∧
    extension.toList.getLast? = some 's'

theorem seeksStyles_searchOf {r : Request} : SeeksStyles (Transform.searchOf r) := by
  simp only [SeeksStyles, Transform.searchOf]
  cases r.indentedSyntax <;> decide

theorem seeksStyles_searchFor : SeeksStyles (searchFor settings path) := by
  simp only [SeeksStyles, searchFor]
  cases settings.indentedSyntax <;> decide

/-- The name of an entry ends in the last letter of the suffix. -/
theorem IsEntryLocation.getLast? (h : IsEntryLocation location) :
    (location.getLast?.bind fun name => name.toList.getLast?) = some 'n' := by
  obtain ⟨above, stem, rfl⟩ := h
  rw [List.getLast?_concat, Option.bind_some, String.toList_append, List.getLast?_append]
  rfl

/-- A name with an extension of a search is not the name of an entry. -/
theorem not_isEntryLocation {above : Location} {stem extension : String}
    (h : extension.toList.getLast? = some 's') :
    ¬ IsEntryLocation (above ++ [stem ++ "." ++ extension]) := by
  intro hentry
  have hlast := hentry.getLast?
  rw [List.getLast?_concat, Option.bind_some, String.toList_append, List.getLast?_append, h] at hlast
  simp at hlast

/-- What a search probes is not where an entry stands. -/
theorem not_isEntryLocation_of_mem_probesFor {s : Dependency.Search} (hs : SeeksStyles s)
    {origin target probe : String} (h : probe ∈ Dependency.probesFor s origin target) :
    ¬ IsEntryLocation (d.lexical probe) := by
  obtain ⟨above, stem, extension, hmem, hlexical⟩ :=
    Dependency.exists_lexical_probe (d := d) (fun e he => (hs e he).1) h
  rw [hlexical]
  exact not_isEntryLocation (hs extension hmem).2

/-- The dependencies of a text are absolute and tidy paths of files that are no entries. -/
theorem exists_file_of_mem_dependencies (hd : d.WellFormed) {s : Dependency.Search}
    (hs : SeeksStyles s) {text : String} {found : List String}
    (h : Dependency.dependencies d s path text = .ok found)
    {dependency : String} (hmem : dependency ∈ found) : ∃ location bytes changed,
      d.node? location = some (.file bytes changed) ∧ dependency ∈ Disk.spellings location ∧
        ¬ IsEntryLocation location := by
  obtain ⟨origin, target, hresolve⟩ := Dependency.exists_resolve_of_walk
    (Dependency.dependencies_eq_walk .. ▸ h) (by simp) dependency hmem
  obtain ⟨above, stem, extension, hextension, ⟨bytes, changed, hnode⟩, hspelling⟩ :=
    Dependency.exists_named_file_of_resolve hd (fun e he => (hs e he).1) hresolve
  exact ⟨_, bytes, changed, hnode, hspelling, not_isEntryLocation (hs extension hextension).2⟩

/-! ## From the store to the check -/

/-- Where the entry of a source stands. -/
def entryLocation (d : Disk) (directory path : String) : Location :=
  d.lexical (entryPath directory path Transform.tag)

theorem isEntryLocation_entryLocation (d : Disk) (directory path : String) :
    IsEntryLocation (entryLocation d directory path) :=
  isEntryLocation_lexical d directory path Transform.tag

/-- The entry that a pass stores is read back. -/
theorem readEntry_of_caches {p : Project} {pass : Transform.Pass} {text : String}
    {given : Option String} {found : List String} {output : Output}
    (hd : pass.session.disk.WellFormed)
    (h : Transform.Caches settings p pass directory text given found output d') :
    readEntry d' directory pass.sheet.path Transform.tag =
      .ok ⟨formatVersion, pass.sheet.path, Transform.tag, output.css, output.map, found⟩ := by
  let entry : Entry :=
    ⟨formatVersion, pass.sheet.path, Transform.tag, output.css, output.map, found⟩
  have hread : readEntry d' directory entry.path entry.tag = .ok entry :=
    readEntry_of_writeEntry hd entry rfl h.written
  exact hread

/-- A disk on which no file has come up since, but for entries. -/
def OnlyEntriesAppear (d d' : Disk) : Prop :=
  ∀ location bytes changed, d'.node? location = some (.file bytes changed) →
    IsEntryLocation location ∨ ∃ bytes changed, d.node? location = some (.file bytes changed)

/-- Where no file has come up but entries, no more of the files are there that a search for other
names may probe. -/
theorem hasNoMore_of_onlyEntriesAppear (hd : d.WellFormed) (hd' : d'.WellFormed)
    (hhome : d'.home = d.home) (honly : OnlyEntriesAppear d d') {s : Dependency.Search}
    (hs : SeeksStyles s) : Dependency.HasNoMore s d d' := by
  intro origin target probe hprobe hnow
  have hentry := not_isEntryLocation_of_mem_probesFor (d := d') hs hprobe
  obtain ⟨path, rfl⟩ := Dependency.exists_normalise_of_mem_probes hprobe
  obtain ⟨bytes, changed, hnode⟩ := hd'.isFile_normalise_iff.1 hnow
  obtain ⟨bytes, changed, hnode⟩ := (honly _ bytes changed hnode).resolve_left hentry
  exact hd.isFile_normalise_iff.2 ⟨bytes, changed, by rwa [← Disk.lexical_congr hhome]⟩

/-- An entry that was stored on the disk `before` and still stands, as it was written, on the disk
`d`. -/
structure Stands (settings : Settings) (directory : String) (before : Disk) (entry : Entry)
    (written : Stamp) (d : Disk) : Prop where
  /-- The working directory is the same. -/
  home : d.home = before.home
  /-- When it was stored, the source held text with these dependencies. -/
  dependencies : ∃ text, before.readText entry.path = .ok text ∧
    Dependency.dependencies before (searchFor settings entry.path) entry.path text =
      .ok entry.dependencies
  /-- The entry has the version that is accepted. -/
  version : entry.version = formatVersion
  /-- The path of the entry leads to it. -/
  locate : d.locate (entryPath directory entry.path Transform.tag) =
    .ok (entryLocation d directory entry.path)
  /-- The entry is as it was written. -/
  node : d.node? (entryLocation d directory entry.path) =
    some (.file (Text.Utf8.encode entry.print.toList) written)
  /-- A file that was there and is not newer than the entry is what it was. -/
  kept : ∀ location bytes changed, before.node? location = some (.file bytes changed) →
    location ≠ entryLocation d directory entry.path → ∀ node, d.node? location = some node →
    node.stamp.units ≤ written.units → node = .file bytes changed

/-- A file is there later with its text, as long as nothing has stood at the changed location. -/
theorem isFile_of_evolves (h : Disk.Evolves (· = location) d d') (hnone : d.node? location = none)
    (hfile : d.isFile path = true) :
    d'.isFile path = true ∧ d'.readText path = d.readText path := by
  obtain ⟨other, bytes, changed, hlocate, hnode⟩ := Disk.isFile_iff.1 hfile
  have hfind := h.find_file hnone (Disk.find_eq_ok_iff.2 ⟨other, hlocate, hnode⟩)
  obtain ⟨other', hlocate', hnode'⟩ := Disk.find_eq_ok_iff.1 hfind
  exact ⟨Disk.isFile_iff.2 ⟨other', bytes, changed, hlocate', hnode'⟩,
    by rw [Disk.readText_of_locate hlocate' hnode', Disk.readText_of_locate hlocate hnode]⟩

/-- What a text is read from is a file. -/
theorem isFile_of_readText {text : String} (h : d.readText path = .ok text) :
    d.isFile path = true := by
  obtain ⟨bytes, changed, hlocate, hnode, -⟩ := Disk.readText_eq_ok_iff.1 h
  exact Disk.isFile_iff.2 ⟨_, bytes, changed, hlocate, hnode⟩

/-- Storing an entry changes its own file only. -/
theorem evolves_of_stores (hbefore : before.WellFormed)
    (hstores : Stores settings directory before entry after) :
    Disk.Evolves (· = entryLocation before directory entry.path) before after ∧
      after.WellFormed := by
  obtain ⟨location, written, hlexical, -, hwriting, hafter, -⟩ :=
    evolves_writeEntry hbefore hstores.written
  rw [hstores.tag] at hlexical
  rw [entryLocation, hlexical]
  exact ⟨hwriting, hafter⟩

/-- An entry stands where it is stored, and for as long as its own file is not touched. -/
theorem stands_of_stores (hbefore : before.WellFormed)
    (hstores : Stores settings directory before entry after)
    (hlater : Disk.Evolves (fun _ => True) after d)
    (huntouched : d.node? (entryLocation after directory entry.path) =
      after.node? (entryLocation after directory entry.path)) :
    ∃ written, Stands settings directory before entry written d ∧
      before.clock.units ≤ written.units := by
  obtain ⟨location, written, hlexical, hlocate, hwriting, -, hnode, hnow, hclock⟩ :=
    evolves_writeEntry hbefore hstores.written
  rw [hstores.tag] at hlexical hlocate
  have hafter : entryLocation after directory entry.path = location := by
    rw [entryLocation, Disk.lexical_congr hwriting.home, hlexical]
  have hstays : entryLocation d directory entry.path = location := by
    rw [entryLocation, Disk.lexical_congr hlater.home, ← hafter, entryLocation]
  rw [hafter, hnode] at huntouched
  refine ⟨written, ⟨hlater.home.trans hwriting.home, hstores.dependencies, hstores.version, ?_, ?_,
    ?_⟩, hnow⟩
  · rw [hstays]
    exact hlater.locate hlocate
  · rw [hstays, huntouched]
  · intro other bytes changed hold hother node hnow hstamp
    rw [hstays] at hother
    have hfile := (hwriting.files other hother bytes changed).2 hold
    -- Whatever has changed since is stamped behind the write.
    rcases hlater.stamps other node hnow with h | ⟨hnew, -⟩
    · exact Option.some.inj (h.symm.trans hfile)
    · have hnext := Disk.units_lt_next written
      rw [hclock] at hnew
      omega

namespace Stands

variable {written : Stamp}

/-- An entry that stands is read. -/
theorem readEntry_eq (h : Stands settings directory before entry written d) :
    readEntry d directory entry.path Transform.tag = .ok entry :=
  readEntry_eq_ok h.locate h.node h.version

/-- An entry that stands may be used again exactly if its source is older and no dependency is
newer. -/
theorem isValid_iff (h : Stands settings directory before entry written d)
    {records : List LogRecord} :
    isValid d directory entry.path Transform.tag = .ok (true, records) ↔ records = [] ∧
      (∃ changed, d.find entry.path = .ok changed ∧ changed.stamp.units < written.units) ∧
      ∀ dependency ∈ entry.dependencies, ∃ node, d.find (Path.tidy dependency) = .ok node ∧
        node.stamp.units ≤ written.units := by
  have hfind := Disk.find_eq_ok_iff.2 ⟨_, h.locate, h.node⟩
  exact isValid_iff_of_readEntry hfind h.readEntry_eq

/-- A file that was there when the entry was stored, and is found and not newer than the entry,
holds the same bytes. -/
theorem find_kept (h : Stands settings directory before entry written d) {bytes : List UInt8}
    {changed : Stamp} (hold : before.node? (before.lexical path) = some (.file bytes changed))
    {node : Node} (hfind : d.find path = .ok node) (hstamp : node.stamp.units ≤ written.units)
    (hother : d.lexical path ≠ entryLocation d directory entry.path) :
    d.locate path = .ok (d.lexical path) ∧
      d.node? (d.lexical path) = some (.file bytes changed) := by
  obtain ⟨location, hlocate, hnode⟩ := Disk.find_eq_ok_iff.1 hfind
  obtain rfl := Disk.eq_lexical_of_locate hlocate
  rw [← Disk.lexical_congr h.home] at hold
  obtain rfl := h.kept _ bytes changed hold hother node hnode hstamp
  exact ⟨hlocate, hnode⟩

/-- What is older than the entry is not the entry. -/
theorem lexical_ne_of_stamp_lt (h : Stands settings directory before entry written d) {node : Node}
    (hfind : d.find path = .ok node) (hstamp : node.stamp.units < written.units) :
    d.lexical path ≠ entryLocation d directory entry.path := by
  intro heq
  obtain ⟨location, hlocate, hnode⟩ := Disk.find_eq_ok_iff.1 hfind
  rw [Disk.eq_lexical_of_locate hlocate, heq, h.node] at hnode
  obtain rfl := Option.some.inj hnode
  have hself : written.units < written.units := hstamp
  omega

/-- The dependencies are recorded as tidy paths. -/
theorem tidy_eq_self (h : Stands settings directory before entry written d)
    (hbefore : before.WellFormed) {dependency : String} (hmem : dependency ∈ entry.dependencies) :
    Path.tidy dependency = dependency := by
  obtain ⟨text, -, hdependencies⟩ := h.dependencies
  obtain ⟨location, bytes, stamp, hnode, hspelling, -⟩ :=
    exists_file_of_mem_dependencies hbefore seeksStyles_searchFor hdependencies hmem
  exact hbefore.tidy_eq_self hnode hspelling

/-- As long as the entry may be used again, its source and its dependencies hold the bytes that they
held when it was stored. -/
theorem readBytes_of_isValid (h : Stands settings directory before entry written d)
    (hbefore : before.WellFormed) {records : List LogRecord}
    (hvalid : isValid d directory entry.path Transform.tag = .ok (true, records)) :
    ∀ file ∈ entry.path :: entry.dependencies, ∃ bytes,
      before.readBytes file = .ok bytes ∧ d.readBytes file = .ok bytes := by
  obtain ⟨-, ⟨changed, hsource, hless⟩, hchecked⟩ := h.isValid_iff.1 hvalid
  obtain ⟨text, htext, hdependencies⟩ := h.dependencies
  intro file hfile
  rcases List.mem_cons.1 hfile with rfl | hfile
  · obtain ⟨bytes, stamp, hlocate, hnode, -⟩ := Disk.readText_eq_ok_iff.1 htext
    obtain ⟨hlocate', hnode'⟩ := h.find_kept hnode hsource (Nat.le_of_lt hless)
      (h.lexical_ne_of_stamp_lt hsource hless)
    exact ⟨bytes, Disk.readBytes_eq_ok_iff.2 ⟨_, stamp, hlocate, hnode⟩,
      Disk.readBytes_eq_ok_iff.2 ⟨_, stamp, hlocate', hnode'⟩⟩
  · obtain ⟨location, bytes, stamp, hnode, hspelling, hentry⟩ :=
      exists_file_of_mem_dependencies hbefore seeksStyles_searchFor hdependencies hfile
    have hlocate := hbefore.locate_of_mem_spellings hnode hspelling
    have hlexical := Disk.eq_lexical_of_locate hlocate
    obtain ⟨node, hfind, hstamp⟩ := hchecked file hfile
    rw [h.tidy_eq_self hbefore hfile] at hfind
    subst hlexical
    obtain ⟨hlocate', hnode'⟩ := h.find_kept hnode hfind hstamp fun heq => hentry <| by
      rw [← Disk.lexical_congr h.home, heq]
      exact isEntryLocation_entryLocation d directory entry.path
    exact ⟨bytes, Disk.readBytes_eq_ok_iff.2 ⟨_, stamp, hlocate, hnode⟩,
      Disk.readBytes_eq_ok_iff.2 ⟨_, stamp, hlocate', hnode'⟩⟩

/-- As long as the entry may be used again, and no file has come up but entries, the source has the
dependencies that are recorded. -/
theorem dependencies_of_isValid (h : Stands settings directory before entry written d)
    (hbefore : before.WellFormed) (hd : d.WellFormed) (honly : OnlyEntriesAppear before d)
    {records : List LogRecord}
    (hvalid : isValid d directory entry.path Transform.tag = .ok (true, records)) :
    ∃ text, d.readText entry.path = .ok text ∧
      Dependency.dependencies d (searchFor settings entry.path) entry.path text =
        .ok entry.dependencies := by
  have hsame := h.readBytes_of_isValid hbefore hvalid
  have htexts : ∀ file ∈ entry.path :: entry.dependencies,
      d.isFile file = true ∧ d.readText file = before.readText file := by
    intro file hfile
    obtain ⟨bytes, hthen, hnow⟩ := hsame file hfile
    obtain ⟨location, changed, hlocate, hnode⟩ := Disk.readBytes_eq_ok_iff.1 hnow
    exact ⟨Disk.isFile_iff.2 ⟨location, bytes, changed, hlocate, hnode⟩,
      by rw [Disk.readText, Disk.readText, hthen, hnow]⟩
  obtain ⟨text, htext, hdependencies⟩ := h.dependencies
  obtain ⟨hfile, hsource⟩ := htexts entry.path (List.mem_cons_self ..)
  refine ⟨text, by rw [hsource, htext], ?_⟩
  exact Dependency.dependencies_congr hbefore hd h.home (.of_none rfl)
    (hasNoMore_of_onlyEntriesAppear hbefore hd h.home honly seeksStyles_searchFor) (fun _ => hfile)
    hdependencies fun path hpath => htexts path (List.mem_cons_of_mem _ hpath)

end Stands

/-- An entry may be used right after it was stored, if its source is another file and everything it
was made from is older than the present. -/
theorem isValid_of_stores (hbefore : before.WellFormed)
    (hstores : Stores settings directory before entry after)
    (hother : before.lexical entry.path ≠ entryLocation before directory entry.path)
    (hold : ∀ file ∈ entry.path :: entry.dependencies, ∀ node, before.find file = .ok node →
      node.stamp.units < before.clock.units) :
    isValid after directory entry.path Transform.tag = .ok (true, []) := by
  obtain ⟨hwriting, -⟩ := evolves_of_stores hbefore hstores
  obtain ⟨written, hstands, hnow⟩ := stands_of_stores hbefore hstores (.refl after) rfl
  have hstays {file : String} {location : Location} {bytes : List UInt8} {changed : Stamp}
      (hlocate : before.locate file = .ok location)
      (hnode : before.node? location = some (.file bytes changed))
      (hne : location ≠ entryLocation before directory entry.path)
      (hfile : file ∈ entry.path :: entry.dependencies) :
      after.find file = .ok (.file bytes changed) ∧ changed.units < written.units := by
    have hless := hold file hfile _ (Disk.find_eq_ok_iff.2 ⟨location, hlocate, hnode⟩)
    refine ⟨Disk.find_eq_ok_iff.2 ⟨location, hwriting.locate hlocate,
      (hwriting.files location hne bytes changed).2 hnode⟩, ?_⟩
    have hchanged : changed.units < before.clock.units := hless
    omega
  obtain ⟨text, htext, hdependencies⟩ := hstores.dependencies
  refine hstands.isValid_iff.2 ⟨rfl, ?_, ?_⟩
  · obtain ⟨bytes, changed, hlocate, hnode, -⟩ := Disk.readText_eq_ok_iff.1 htext
    obtain ⟨hfind, hless⟩ := hstays hlocate hnode hother (List.mem_cons_self ..)
    exact ⟨_, hfind, hless⟩
  · intro dependency hdependency
    obtain ⟨location, bytes, changed, hnode, hspelling, hentry⟩ :=
      exists_file_of_mem_dependencies hbefore seeksStyles_searchFor hdependencies hdependency
    have hne : location ≠ entryLocation before directory entry.path := by
      intro heq
      rw [heq] at hentry
      exact hentry (isEntryLocation_entryLocation before directory entry.path)
    obtain ⟨hfind, hless⟩ := hstays (hbefore.locate_of_mem_spellings hnode hspelling) hnode hne
      (List.mem_cons_of_mem _ hdependency)
    rw [hbefore.tidy_eq_self hnode hspelling]
    exact ⟨_, hfind, Nat.le_of_lt hless⟩

end StyleBundle.Cache
