import StyleBundle.Proofs.Dependency.Reader
import StyleBundle.Proofs.Path.Directory

/-!
# Targets that name a file

A target names a file when it leads there from the directory of the importing file as it stands.
The walk tries the name as it stands only behind a known extension, and then before all else; so it
lists a file that is named in this way, and none whose name ends in another extension.
-/

namespace StyleBundle.Dependency

open StyleBundle.Path (IsName)

variable {d : Disk} {s : Search} {entry text origin target path : String}

/-- The path that a target names in the directory of the file that imports it. -/
def namedPath (origin target : String) : String :=
  Path.normalise (Path.join (Path.directory origin) target)

/-- A name is the first of its forms. -/
theorem exists_nameForms (partials : Bool) (name : String) :
    ∃ others, nameForms partials name = name :: others := by
  unfold nameForms
  split
  · exact ⟨["_" ++ name], rfl⟩
  · exact ⟨[], rfl⟩

/-- Behind a known extension the target is its own first candidate. -/
theorem exists_candidates_of_hasExtension {extensions : List String} (partials : Bool)
    (h : hasExtension extensions (Path.splitLast target).2 = true) :
    ∃ others, candidates partials extensions target =
      Path.join (Path.splitLast target).1 (Path.splitLast target).2 :: others := by
  obtain ⟨others, hforms⟩ := exists_nameForms partials (Path.splitLast target).2
  simp only [candidates, h, if_true, hforms, List.flatMap_cons]
  exact ⟨_, rfl⟩

/-- A target with a known extension leads to the file that it names. -/
theorem resolve_of_hasExtension (h : hasExtension s.extensions (Path.splitLast target).2 = true)
    (hfile : d.isFile (namedPath origin target) = true) :
    resolve d s origin target = some (d.absolute (namedPath origin target)) := by
  obtain ⟨others, hcandidates⟩ := exists_candidates_of_hasExtension s.partials h
  obtain ⟨more, hprobes⟩ : ∃ more, probes (Path.directory origin :: s.paths)
      (candidates s.partials s.extensions target) = namedPath origin target :: more := by
    rw [hcandidates, probes, List.flatMap_cons, List.map_cons, Path.normalise_join_splitLast]
    exact ⟨_, rfl⟩
  rw [resolve, lookup_eq_find?, hprobes, List.find?_cons_of_pos hfile, Option.map_some]

/-- No target leads to a file whose name has no known extension. -/
theorem hasExtension_of_resolve_eq_named (hd : d.WellFormed)
    (hextensions : ∀ extension ∈ s.extensions,
      2 ≤ extension.toList.length ∧ '/' ∉ extension.toList)
    (hname : IsName (Path.splitLast target).2)
    (hfile : d.isFile (namedPath origin target) = true) {importing sought : String}
    (h : resolve d s importing sought = some (d.absolute (namedPath origin target))) :
    hasExtension s.extensions (Path.splitLast target).2 = true := by
  obtain ⟨location, bytes, changed, hlocate, hnode⟩ := Disk.isFile_iff.1 hfile
  obtain ⟨above, stem, extension, hmem, ⟨_, _, hnode'⟩, hspelled⟩ :=
    exists_named_file_of_resolve hd hextensions h
  have hlocation : above ++ [stem ++ "." ++ extension] = location :=
    Except.ok.inj ((hd.locate_of_mem_spellings hnode' hspelled).symm.trans
      (hd.locate_of_mem_spellings hnode (hd.absolute_mem_spellings hlocate)))
  obtain ⟨front, hfront⟩ := Path.exists_segments_splitLast target
  obtain ⟨front', hlexical⟩ :=
    exists_lexical_normalise_join (d := d) hname hfront (Path.directory origin)
  have hlast : above ++ [stem ++ "." ++ extension] = front' ++ [(Path.splitLast target).2] :=
    hlocation.trans ((Disk.eq_lexical_of_locate hlocate).trans hlexical)
  obtain ⟨-, hlast⟩ := List.append_inj' hlast rfl
  have hname : stem ++ "." ++ extension = (Path.splitLast target).2 := (List.cons.inj hlast).1
  rw [← hname, String.append_assoc]
  exact List.any_eq_true.2 ⟨extension, hmem,
    Option.isSome_iff_exists.2 ⟨stem, Import.dropEnd?_eq_some_iff.2 rfl⟩⟩

/-- Without a hook, a file that an import names is the entry or in the list, if its name has a known
extension: the imports are those of the entry and of every file that it reaches, and these files
hold text. A named file without a known extension is never in the list. -/
theorem mem_dependencies_of_named (hd : d.WellFormed) (hhook : s.hook = none)
    (hextensions : ∀ extension ∈ s.extensions,
      2 ≤ extension.toList.length ∧ '/' ∉ extension.toList)
    (htext : ∀ path, Reaches d s entry text path → path ≠ entry →
      ∃ content, d.readText path = .ok content) :
    ∃ found, dependencies d s entry text = .ok found ∧
      ∀ origin content, Reaches d s entry text origin →
        contentOf d entry text origin = .ok content →
        ∀ statement ∈ Import.statements content, isExternal statement.target = false →
        d.isFile (namedPath origin statement.target) = true →
          (hasExtension s.extensions (Path.splitLast statement.target).2 = true →
            d.absolute (namedPath origin statement.target) ∈ entry :: found) ∧
          (hasExtension s.extensions (Path.splitLast statement.target).2 = false →
            IsName (Path.splitLast statement.target).2 →
            d.absolute (namedPath origin statement.target) ∉ found) := by
  have hs : s.IsSteady d := by
    intro hook hsome
    simp [hhook] at hsome
  obtain ⟨found, hfound, hdiscovery⟩ := exists_dependencies_discovery hd hs htext
  refine ⟨found, hfound, ?_⟩
  intro origin content hreach hcontent statement hstatement hexternal hfile
  constructor
  · intro hextension
    have hleads : Leads d s origin statement.target
        (d.absolute (namedPath origin statement.target)) :=
      ⟨hexternal, statement.target, by simp [Redirects, hhook],
        resolve_of_hasExtension hextension hfile⟩
    have hnamed := hreach.tail ⟨content, hcontent, statement, hstatement, hleads⟩
    by_cases hentry : d.absolute (namedPath origin statement.target) = entry
    · simp [hentry]
    · exact List.mem_cons_of_mem _ ((hdiscovery.mem_iff_reaches _).2 ⟨hentry, hnamed⟩)
  · intro hextension hname hlisted
    obtain ⟨importing, sought, hresolve⟩ :=
      exists_resolve_of_walk (dependencies_eq_walk d s entry text ▸ hfound) (by simp) _ hlisted
    simp [hasExtension_of_resolve_eq_named hd hextensions hname hfile hresolve] at hextension

theorem statements_named :
    Import.statements "@import 'a.scss';" = [⟨"@import 'a.scss';", "a.scss"⟩] :=
  Import.statements_of_parse? [] (by decide) (by decide) (by decide)

/-- A search that knows the extension of the indented dialect in the place of the braced one. -/
def indentedSearch : Search := { plainSearch with extensions := ["css", "sass"] }

/-- On the ring the file that the entry names is listed. -/
theorem mem_dependencies_of_named_ring : ring.WellFormed ∧ plainSearch.hook = none ∧
    (∀ extension ∈ plainSearch.extensions,
      2 ≤ extension.toList.length ∧ '/' ∉ extension.toList) ∧
    (∀ path, Reaches ring plainSearch "/s/main.scss" "@import 'a.scss';" path →
      path ≠ "/s/main.scss" → ∃ content, ring.readText path = .ok content) ∧
    ∃ found, dependencies ring plainSearch "/s/main.scss" "@import 'a.scss';" = .ok found ∧
      "/s/a.scss" ∈ found := by
  have hextensions : ∀ extension ∈ plainSearch.extensions,
      2 ≤ extension.toList.length ∧ '/' ∉ extension.toList := by decide
  have htext : ∀ path, Reaches ring plainSearch "/s/main.scss" "@import 'a.scss';" path →
      path ≠ "/s/main.scss" → ∃ content, ring.readText path = .ok content :=
    fun _ => exists_text_ring
  refine ⟨wellFormed_ring, rfl, hextensions, htext, ?_⟩
  obtain ⟨found, hfound, hnamed⟩ :=
    mem_dependencies_of_named wellFormed_ring rfl hextensions htext
  have hlisted := (hnamed "/s/main.scss" "@import 'a.scss';" .refl (by simp [contentOf])
    ⟨"@import 'a.scss';", "a.scss"⟩ (by simp [statements_named]) (by decide)
    (by decide +kernel)).1 (by decide)
  have hpath : ring.absolute (namedPath "/s/main.scss" "a.scss") = "/s/a.scss" := by
    decide +kernel
  rw [hpath] at hlisted
  exact ⟨found, hfound, by simpa using hlisted⟩

/-- A file that the only import of the entry names is not listed when its extension is that of the
other dialect: it is never looked up. -/
theorem exists_unlisted_named_file : ring.WellFormed ∧
    Import.statements "@import 'a.scss';" = [⟨"@import 'a.scss';", "a.scss"⟩] ∧
    isExternal "a.scss" = false ∧ ring.isFile (namedPath "/s/main.scss" "a.scss") = true ∧
    ring.absolute (namedPath "/s/main.scss" "a.scss") = "/s/a.scss" ∧
    dependencies ring indentedSearch "/s/main.scss" "@import 'a.scss';" = .ok [] := by
  have hsteady : indentedSearch.IsSteady ring := by
    intro hook hhook
    cases hhook
  refine ⟨wellFormed_ring, statements_named, by decide, by decide +kernel, by decide +kernel,
    dependencies_eq_nil wellFormed_ring hsteady statements_named ?_⟩
  rintro path ⟨-, sought, rfl, hresolve⟩
  have hnone : resolve ring indentedSearch "/s/main.scss" "a.scss" = none := by decide +kernel
  rw [hnone] at hresolve
  cases hresolve

end StyleBundle.Dependency
