import StyleBundle.Proofs.Cache.History

/-!
# New files

The check of an entry looks at the files that were found when the entry was stored, never at those
that were looked for in vain. A new file therefore leaves every entry as it is, even where it takes
the place of a recorded dependency or completes an import that led nowhere.
-/

namespace StyleBundle.Cache

open Transform (searchFor Stores)

variable {settings : Settings} {directory file : String} {before d d' : Disk} {entry : Entry}
  {written clock : Stamp} {bytes : List UInt8}

/-- A path that leads to nothing, and is written at some time, is a new file. -/
theorem exists_new_file (hd : d.WellFormed) (hnew : d.exists? file = false)
    (hcreate : { d with clock }.writeBytes file bytes = .ok d') : ∃ location,
    d'.locate file = .ok location ∧ d.node? location = none ∧ d'.WellFormed ∧
      Disk.Evolves (· = location) { d with clock } d' := by
  have hd' := hd.withClock clock
  obtain ⟨location, hlocate, hwriting, hwell, -⟩ := hd'.writeBytes hcreate
  refine ⟨location, hwriting.locate hlocate, ?_, hwell, hwriting⟩
  apply Option.eq_none_iff_forall_ne_some.2
  intro node hnode
  have hfind := Disk.find_eq_ok_iff.2 ⟨location, hlocate, hnode⟩
  rw [Disk.find_clock] at hfind
  simp [Disk.exists?, Disk.find?, hfind, Except.toOption] at hnew

namespace Stands

/-- An entry that may be used may still be used when a new file has come up. -/
theorem isValid_of_new (h : Stands settings directory before entry written d)
    (hbefore : before.WellFormed) (hd : d.WellFormed) {records : List LogRecord}
    (hvalid : isValid d directory entry.path Transform.tag = .ok (true, records))
    (hnew : d.exists? file = false)
    (hcreate : { d with clock }.writeBytes file bytes = .ok d') :
    readEntry d' directory entry.path Transform.tag = .ok entry ∧
      isValid d' directory entry.path Transform.tag = .ok (true, records) := by
  obtain ⟨location, -, hnone, -, hwriting⟩ := exists_new_file hd hnew hcreate
  have hsame := h.readBytes_of_isValid hbefore hvalid
  have hkept : ∀ path, (∃ bytes, d.readBytes path = .ok bytes) → ∀ node, d.find path = .ok node →
      d'.find path = .ok node := by
    rintro path ⟨bytes, hbytes⟩ node hfind
    cases node with
    | directory stamp => simp [Disk.readBytes, hfind] at hbytes
    | file bytes stamp =>
      rw [← Disk.find_clock d clock] at hfind
      exact hwriting.find_file hnone hfind
  apply isValid_of_find_kept hvalid h.readEntry_eq
  intro path hpath
  apply hkept
  rcases List.mem_cons.1 hpath with rfl | hpath
  · exact ⟨_, Disk.readBytes_eq_ok_iff.2 ⟨_, written, h.locate, h.node⟩⟩
  · rcases List.mem_cons.1 hpath with rfl | hpath
    · obtain ⟨bytes, -, hnow⟩ := hsame _ (List.mem_cons_self ..)
      exact ⟨bytes, hnow⟩
    · obtain ⟨dependency, hdependency, rfl⟩ := List.mem_map.1 hpath
      rw [h.tidy_eq_self hbefore hdependency]
      obtain ⟨bytes, -, hnow⟩ := hsame dependency (List.mem_cons_of_mem _ hdependency)
      exact ⟨bytes, hnow⟩

/-- Dependencies that differ from the recorded ones when a new file has come up hold that file. -/
theorem mem_of_dependencies_ne (h : Stands settings directory before entry written d)
    (hbefore : before.WellFormed) (hd : d.WellFormed) (honly : OnlyEntriesAppear before d)
    {records : List LogRecord}
    (hvalid : isValid d directory entry.path Transform.tag = .ok (true, records))
    (hnew : d.exists? file = false)
    (hcreate : { d with clock }.writeBytes file bytes = .ok d') {text : String}
    (htext : d'.readText entry.path = .ok text) {found : List String}
    (hfound : Dependency.dependencies d' (searchFor settings entry.path) entry.path text =
      .ok found) (hne : found ≠ entry.dependencies) :
    ∃ path ∈ found, d'.locate path = d'.locate file := by
  obtain ⟨location, hlocate, hnone, hd', hwriting⟩ := exists_new_file hd hnew hcreate
  obtain ⟨text', htext', hrecorded⟩ := h.dependencies_of_isValid hbefore hd honly hvalid
  have hkept : ∀ path, d.isFile path = true →
      d'.isFile path = true ∧ d'.readText path = d.readText path := by
    intro path hfile
    have hclock : Disk.isFile { d with clock } path = true ∧
        Disk.readText { d with clock } path = d.readText path := by
      simp only [Disk.isFile, Disk.find?, Disk.readText, Disk.readBytes, Disk.find_clock]
      exact ⟨hfile, trivial⟩
    obtain ⟨hstays, hsame⟩ := isFile_of_evolves hwriting hnone hclock.1
    exact ⟨hstays, hsame.trans hclock.2⟩
  have hsource : d.isFile entry.path = true := isFile_of_readText htext'
  obtain rfl : text' = text := by
    rw [(hkept entry.path hsource).2, htext'] at htext
    exact Except.ok.inj htext
  by_contra hmissed
  -- What is found besides the new file was there before, so that the search finds it there too.
  have hfound' : Dependency.dependencies d (searchFor settings entry.path) entry.path text' =
      .ok found := by
    refine Dependency.dependencies_congr hd' hd hwriting.home.symm
      (.of_none rfl) (fun _ _ probe _ hprobe => (hkept probe hprobe).1)
      (fun _ => hsource) hfound fun path hpath => ?_
    obtain ⟨other, bytes, changed, hnode, hspelling, -⟩ :=
      exists_file_of_mem_dependencies hd' seeksStyles_searchFor hfound hpath
    have hother : other ≠ location := by
      rintro rfl
      exact hmissed ⟨path, hpath, (hd'.locate_of_mem_spellings hnode hspelling).trans hlocate.symm⟩
    have hold : d.node? other = some (.file bytes changed) :=
      (hwriting.files other hother bytes changed).1 hnode
    have hfile : d.isFile path = true :=
      Disk.isFile_iff.2 ⟨other, bytes, changed, hd.locate_of_mem_spellings hold hspelling, hold⟩
    exact ⟨hfile, (hkept path hfile).2.symm⟩
  exact hne (Except.ok.inj (hfound'.symm.trans hrecorded))

end Stands

/-- A new file leaves the entry that a transform has stored as it is: whatever the file is, and
whenever it is written, the entry may still be used. Where extracting the dependencies anew would
give others than the recorded ones, the new file is among them. -/
theorem isValid_create {p : Project} {pass pass' : Transform.Pass}
    (himporting : settings.importing = .off) (hcache : p.cache = some directory)
    (hfresh : pass.sheet.contents = none) (hdisk : pass.session.disk.WellFormed)
    (hrun : (Transform.transform settings p).run pass = (.ok (), pass'))
    (hmiss : ∀ records, isValid pass.session.disk directory pass.sheet.path Transform.tag ≠
      .ok (true, records)) {records : List LogRecord}
    (hvalid : isValid pass'.session.disk directory pass.sheet.path Transform.tag =
      .ok (true, records))
    (hnew : pass'.session.disk.exists? file = false)
    (hcreate : { pass'.session.disk with clock }.writeBytes file bytes = .ok d') :
    isValid d' directory pass.sheet.path Transform.tag = .ok (true, records) ∧
      ∃ entry, readEntry d' directory pass.sheet.path Transform.tag = .ok entry ∧
        ∀ text found, d'.readText pass.sheet.path = .ok text →
          Dependency.dependencies d' (searchFor settings pass.sheet.path) pass.sheet.path text =
            .ok found →
          found ≠ entry.dependencies → ∃ path ∈ found, d'.locate path = d'.locate file := by
  rcases Transform.transform_ok himporting hfresh hrun with hsame | ⟨other, entry, hother, -, hpath,
    hstores⟩
  · rw [hsame] at hvalid
    exact absurd hvalid (hmiss records)
  · obtain rfl := Option.some.inj (hcache.symm.trans hother)
    obtain ⟨hwriting, hd⟩ := evolves_of_stores hdisk hstores
    obtain ⟨written, hstands, -⟩ := stands_of_stores hdisk hstores (.refl _) rfl
    have honly := onlyEntriesAppear_of_evolves hwriting
      (.inl (isEntryLocation_entryLocation _ directory entry.path))
    rw [← hpath] at hvalid ⊢
    obtain ⟨hread, hstill⟩ := hstands.isValid_of_new hdisk hd hvalid hnew hcreate
    exact ⟨hstill, entry, hread, fun text found htext hfound hne =>
      hstands.mem_of_dependencies_ne hdisk hd honly hvalid hnew hcreate htext hfound hne⟩

/-- What the disk holds when the first pass has stored the entry and then a file has come up that
takes the place of the one behind the underscore. -/
theorem exists_created_pair : ∃ d d', writeEntry pair "/c" pairEntry = .ok d ∧
    d.exists? "/s/a.scss" = false ∧ d.writeBytes "/s/a.scss" [] = .ok d' ∧
    isNewer d' "/s/a.scss" (entryPath "/c" "/s/main.scss" Transform.tag) = .ok true ∧
    d'.readBytes "/s/main.scss" = .ok (Text.Utf8.encode "@import 'a';".toList) ∧
    d'.readBytes "/s/a.scss" = .ok [] ∧
    Dependency.resolve d' (searchFor .default "/s/main.scss") "/s/main.scss" "a" =
      some "/s/a.scss" := by
  have hfacts : (writeEntry pair "/c" pairEntry).toOption.any (fun d =>
      !d.exists? "/s/a.scss" && (d.writeBytes "/s/a.scss" []).toOption.any fun d' =>
        decide (isNewer d' "/s/a.scss" (entryPath "/c" "/s/main.scss" Transform.tag) = .ok true) &&
        decide (d'.readBytes "/s/main.scss" =
          .ok (Text.Utf8.encode "@import 'a';".toList)) &&
        decide (d'.readBytes "/s/a.scss" = .ok []) &&
        decide (Dependency.resolve d' (searchFor .default "/s/main.scss") "/s/main.scss" "a" =
          some "/s/a.scss")) = true := by decide +kernel
  obtain ⟨d, hd, hfacts⟩ := exists_ok_of_any hfacts
  obtain ⟨hnew, hfacts⟩ := Bool.and_eq_true_iff.1 hfacts
  obtain ⟨d', hd', hfacts⟩ := exists_ok_of_any hfacts
  simp only [Bool.and_eq_true, decide_eq_true_eq] at hfacts
  obtain ⟨⟨⟨hlater, hsource⟩, hempty⟩, hresolve⟩ := hfacts
  exact ⟨d, d', hd, by simpa using hnew, hd', hlater, hsource, hempty, hresolve⟩

/-- Behind the first pass a file comes up that takes the place of a dependency, and the entry may
still be used. -/
theorem isValid_create_pair : ∃ pass' d',
    (Transform.transform .default cachingProject).run firstPass = (.ok (), pass') ∧
    (∀ records, isValid pair "/c" "/s/main.scss" Transform.tag ≠ .ok (true, records)) ∧
    isValid pass'.session.disk "/c" "/s/main.scss" Transform.tag = .ok (true, []) ∧
    pass'.session.disk.exists? "/s/a.scss" = false ∧
    pass'.session.disk.writeBytes "/s/a.scss" [] = .ok d' ∧
    isValid d' "/c" "/s/main.scss" Transform.tag = .ok (true, []) := by
  obtain ⟨d, d', hwritten, hnew, hcreate, -⟩ := exists_created_pair
  obtain ⟨pass', hpass, rfl, hstores⟩ := exists_firstPass_run hwritten
  have hvalid := isValid_of_stores_pair rfl hstores
  have hmiss : ∀ records, isValid pair "/c" "/s/main.scss" Transform.tag ≠ .ok (true, records) := by
    intro records h
    simp [isValid_pair_eq_false] at h
  obtain ⟨hstill, -⟩ :=
    isValid_create rfl rfl rfl wellFormed_pair hpass hmiss hvalid hnew hcreate
  exact ⟨pass', d', hpass, hmiss, hvalid, hnew, hcreate, hstill⟩

/-- A new file need not make an entry useless, though the dependencies are no longer those that are
recorded: one that is found before the file behind the underscore does not. -/
theorem exists_unnoticed_file : ∃ pass' d' entry,
    (Transform.transform .default cachingProject).run firstPass = (.ok (), pass') ∧
    isValid pass'.session.disk "/c" "/s/main.scss" Transform.tag = .ok (true, []) ∧
    pass'.session.disk.exists? "/s/a.scss" = false ∧
    pass'.session.disk.writeBytes "/s/a.scss" [] = .ok d' ∧
    isNewer d' "/s/a.scss" (entryPath "/c" "/s/main.scss" Transform.tag) = .ok true ∧
    readEntry d' "/c" "/s/main.scss" Transform.tag = .ok entry ∧
    entry.dependencies = ["/s/_a.scss"] ∧ d'.readText "/s/main.scss" = .ok "@import 'a';" ∧
    Dependency.dependencies d' (searchFor .default "/s/main.scss") "/s/main.scss" "@import 'a';" =
      .ok ["/s/a.scss"] ∧
    isValid d' "/c" "/s/main.scss" Transform.tag = .ok (true, []) := by
  obtain ⟨d, d', hwritten, hnew, hcreate, hlater, hsource, hempty, hresolve⟩ := exists_created_pair
  obtain ⟨pass', hpass, rfl, hstores⟩ := exists_firstPass_run hwritten
  obtain ⟨-, hd⟩ := evolves_of_stores wellFormed_pair hstores
  have hvalid := isValid_of_stores_pair rfl hstores
  obtain ⟨written, hstands, -⟩ := stands_of_stores wellFormed_pair hstores (.refl _) rfl
  obtain ⟨hread, hstill⟩ := hstands.isValid_of_new wellFormed_pair hd hvalid hnew hcreate
  obtain ⟨location, -, -, hd', -⟩ := exists_new_file hd hnew hcreate
  exact ⟨pass', d', pairEntry, hpass, hvalid, hnew, hcreate, hlater, hread, rfl,
    readText_main hsource, dependencies_main hd' hresolve (by decide) hempty, hstill⟩

end StyleBundle.Cache
