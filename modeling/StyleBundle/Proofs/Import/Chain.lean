import StyleBundle.Proofs.Import.Target

/-!
# The paths of a chain of imports

A stylesheet with imports of its own is read from a file, so that the path given for it is one of
finitely many: an absolute target that stands in some file, or one of the plain paths from which a
read comes to a file. There are no more of them than the bound on the depth allows.
-/

namespace StyleBundle.Import

variable {d : Disk} {root extension path : String}

/-! ## Names on a chain -/

/-- The paths given for stylesheets that are read from the file at a location: its spellings, those
of its counterpart, and the same without the extension. -/
def plainNames (extension : String) (location : Location) : List String :=
  (Disk.spellings location).flatMap fun path =>
    [path, counterpart path, (dropEnd? extension path).getD "",
      (dropEnd? extension (counterpart path)).getD ""]

/-- The paths given for stylesheets with statements, the entry apart. -/
def chainNames (d : Disk) (extension : String) : List String :=
  d.files.flatMap (fun (location, _) => plainNames extension location) ++
    d.files.flatMap fun (_, bytes) =>
      (statementsOf bytes).map fun statement => withExtension extension statement.target

/-- The bound on the depth leaves room for the entry and for every path of a chain. -/
theorem length_chainNames_lt (d : Disk) (extension : String) :
    (chainNames d extension).length + 1 < chainBound d := by
  have hplain : (d.files.flatMap fun (location, _) => plainNames extension location).length =
      d.files.length * 8 := by
    simp [plainNames, Disk.spellings, List.length_flatMap, List.map_const']
  have htargets : (d.files.flatMap fun (_, bytes) => (statementsOf bytes).map fun statement =>
      withExtension extension statement.target).length = statementCount d := by
    simp [statementCount, List.length_flatMap]
  rw [chainNames, List.length_append, hplain, htargets, chainBound]
  omega

variable [Limits]

/-! ## How a read goes -/

/-- Nothing stands where a path leads to. -/
def IsMissing (d : Disk) (path : String) : Prop :=
  ∃ file, d.readText path = .error (.disk (.refused .missing file))

/-- How the read of a path goes, by what the disk says to the path and to its counterpart. -/
inductive Goes (d : Disk) (path : String) : Reading → Prop
  /-- The path is read. -/
  | direct {text : String} (read_eq : d.readText path = .ok text) : Goes d path (.direct text)
  /-- The counterpart is read instead. -/
  | swapped {text : String} (missing : IsMissing d path)
      (read_eq : d.readText (counterpart path) = .ok text) : Goes d path (.swapped text)
  /-- The disk refuses both. -/
  | unresolved {cause : Disk.Cause} {file : String} (missing : IsMissing d path)
      (refused : d.readText (counterpart path) = .error (.disk (.refused cause file))) :
      Goes d path .unresolved
  /-- The path can be opened or is refused for more than a missing file. -/
  | first {failure : Failure} (fails : d.readText path = .error failure)
      (stands : ∀ file, failure ≠ .disk (.refused .missing file)) : Goes d path (.fatal failure false)
  /-- The counterpart is not refused and cannot be read. -/
  | second {failure : Failure} (missing : IsMissing d path)
      (fails : d.readText (counterpart path) = .error failure)
      (stands : ∀ cause file, failure ≠ .disk (.refused cause file)) :
      Goes d path (.fatal failure true)

/-- A read goes as the disk says. -/
theorem goes_iff {reading : Reading} : Goes d path reading ↔ read d path = reading := by
  constructor
  · rintro (hread | ⟨⟨file, hmissing⟩, hread⟩ | ⟨⟨file, hmissing⟩, hrefused⟩ | ⟨hfails, hstands⟩ |
      ⟨⟨file, hmissing⟩, hfails, hstands⟩)
    · simp only [read, hread]
    · simp only [read, hmissing, hread]
    · simp only [read, hmissing, hrefused]
    · simp only [read, hfails]
    · simp only [read, hmissing, hfails]
  · rintro rfl
    unfold read
    split
    next hread => exact .direct hread
    next hmissing =>
      split
      next hread => exact .swapped ⟨_, hmissing⟩ hread
      next hrefused => exact .unresolved ⟨_, hmissing⟩ hrefused
      next hstands hfails =>
        exact .second ⟨_, hmissing⟩ hfails fun cause file heq => hstands cause file heq
    next hstands hfails => exact .first hfails fun file heq => hstands file heq

/-- The counterpart of a missing path is looked for. -/
theorem goes (d : Disk) (path : String) : Goes d path (read d path) := goes_iff.2 rfl

/-! ## What is read for a path -/

/-- The text of the stylesheet at a path, where missing ones are empty. -/
def sourceText (d : Disk) (extension path : String) : Except Failure String :=
  (read d (entryPath extension path)).text

/-- A path is read for a statement of the stylesheet at another one. -/
def Reads (d : Disk) (root extension path other : String) : Prop :=
  ∃ text, sourceText d extension path = .ok text ∧
    ∃ statement ∈ statements text, other = targetPath root extension path statement.target

/-- Where a stylesheet has statements, its path or the counterpart is that of a file. -/
theorem exists_file_of_sourceText {path text : String}
    (htext : sourceText d extension path = .ok text) (hne : statements text ≠ []) :
    ∃ location bytes, (location, bytes) ∈ d.files ∧ statementsOf bytes = statements text ∧
      (d.locate (entryPath extension path) = .ok location ∨
        d.locate (counterpart (entryPath extension path)) = .ok location) := by
  have hfile {name : String} (h : d.readText name = .ok text) : ∃ location bytes,
      (location, bytes) ∈ d.files ∧ statementsOf bytes = statements text ∧
        d.locate name = .ok location := by
    obtain ⟨bytes, changed, hlocate, hnode, hcontent⟩ := Disk.readText_eq_ok_iff.1 h
    refine ⟨d.lexical name, bytes, ?_, by simp [statementsOf, hcontent], hlocate⟩
    exact List.mem_filterMap.2 ⟨_, Table.mem_of_get? hnode, rfl⟩
  have hgoes := goes d (entryPath extension path)
  rw [sourceText] at htext
  generalize read d (entryPath extension path) = reading at hgoes htext
  cases hgoes with
  | direct hdirect =>
    obtain rfl := Except.ok.inj htext
    obtain ⟨location, bytes, hmem, hbytes, hlocate⟩ := hfile hdirect
    exact ⟨location, bytes, hmem, hbytes, .inl hlocate⟩
  | swapped _ hswapped =>
    obtain rfl := Except.ok.inj htext
    obtain ⟨location, bytes, hmem, hbytes, hlocate⟩ := hfile hswapped
    exact ⟨location, bytes, hmem, hbytes, .inr hlocate⟩
  | unresolved =>
    obtain rfl := Except.ok.inj htext
    exact absurd (by rw [statements, String.toList_empty, scan]) hne
  | first | second => cases htext

/-- A plain path from which a file is read is one of that file's paths. -/
theorem mem_plainNames {path : String} {location : Location} (hextension : '/' ∉ extension.toList)
    (hpath : IsPlain path)
    (hlocate : d.locate (entryPath extension path) = .ok location ∨
      d.locate (counterpart (entryPath extension path)) = .ok location) :
    path ∈ plainNames extension location := by
  have hentry := hpath.entryPath hextension
  obtain ⟨spelling, hspelling, hname⟩ : ∃ spelling ∈ Disk.spellings location,
      entryPath extension path = spelling ∨ entryPath extension path = counterpart spelling := by
    rcases hlocate with hlocate | hlocate
    · exact ⟨_, hentry.mem_spellings hlocate, .inl rfl⟩
    · exact ⟨_, hentry.counterpart.mem_spellings hlocate, .inr (counterpart_counterpart _).symm⟩
  refine List.mem_flatMap.2 ⟨spelling, hspelling, ?_⟩
  have hdrop : entryPath extension path = path ∨
      dropEnd? extension (entryPath extension path) = some path := by
    unfold entryPath
    simp only
    split
    · exact .inl rfl
    · exact .inr (dropEnd?_eq_some_iff.2 rfl)
  rcases hdrop with hdrop | hdrop <;> rcases hname with hname | hname
  · simp [← hname, hdrop]
  · simp [← hname, hdrop]
  · simp [← hname, hdrop]
  · simp [← hname, hdrop]

/-- A stylesheet that is read for a statement and has statements of its own has one of the paths
that a chain can go through. -/
theorem mem_chainNames (hroot : Path.isAbsolute (root ++ "/") = true)
    (hextension : '/' ∉ extension.toList) {path other text : String}
    (hreads : Reads d root extension path other)
    (htext : sourceText d extension other = .ok text) (hne : statements text ≠ []) :
    other ∈ chainNames d extension := by
  obtain ⟨content, hcontent, statement, hstatement, rfl⟩ := hreads
  obtain ⟨location, bytes, hmem, -, hlocate⟩ := exists_file_of_sourceText htext hne
  unfold targetPath resolve at htext hlocate ⊢
  split at hlocate
  next hempty =>
    have hnone : sourceText d extension "" = .ok "" := by
      have hread : d.readText "" = .error (.disk (.refused .missing "")) := by
        simp [Disk.readText, Disk.readBytes, Disk.find, Disk.locate]
      have hcounterpart : counterpart "" = "" := rfl
      have hentry : entryPath extension "" = "" := rfl
      simp only [sourceText, hentry, read, hread, hcounterpart, Reading.text]
    rw [if_pos hempty, hnone] at htext
    obtain rfl := Except.ok.inj htext
    exact absurd (by rw [statements, String.toList_empty, scan]) hne
  next hempty =>
    simp only [if_neg hempty] at htext hlocate ⊢
    split at hlocate
    next habsolute =>
      rw [if_pos habsolute]
      obtain ⟨source, contents, hsource, hcontents, -⟩ :=
        exists_file_of_sourceText hcontent (List.ne_nil_of_mem hstatement)
      refine List.mem_append_right _ (List.mem_flatMap.2 ⟨_, hsource, List.mem_map.2 ?_⟩)
      exact ⟨statement, hcontents ▸ hstatement, rfl⟩
    next hrelative =>
      rw [if_neg hrelative]
      refine List.mem_append_left _ (List.mem_flatMap.2 ⟨_, hmem, ?_⟩)
      refine mem_plainNames hextension (IsPlain.normalise ?_) hlocate
      rw [String.append_assoc]
      exact Path.isAbsolute_append (Path.isAbsolute_append hroot _) _

end StyleBundle.Import
