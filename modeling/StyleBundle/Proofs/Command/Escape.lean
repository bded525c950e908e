import StyleBundle.Proofs.Command.Source
import StyleBundle.Proofs.Command.Work
import StyleBundle.Proofs.Dependency.Closure
import StyleBundle.Proofs.Import.Fault
import StyleBundle.Proofs.Settings.Load
import StyleBundle.Proofs.Transform.Stop

/-!
# How commands end

A command is done, or it complains in a line of errors, gives out nothing and leaves the files as
they are. The failures that it does not deal with are few and are all told here.
-/

namespace StyleBundle.Command

open Work

variable {s : Session} {verbose : Bool} {task : Task} {file source : String} {r : Run}

/-! ## Runs that have done little -/

/-- A run that has not done anything yet. -/
def Run.start (s : Session) (verbose : Bool) : Run := ⟨s, verbose, "", ""⟩

theorem Run.session_start (s : Session) (verbose : Bool) : (Run.start s verbose).session = s := rfl

/-- A run that has shown log records at most. -/
structure Quiet (s : Session) (r : Run) : Prop where
  /-- The messages are lines. -/
  messages : EndsLine r.messages
  /-- Nothing is given out. -/
  output : r.output = ""
  /-- The disk is as it was. -/
  disk : r.session.disk = s.disk

/-- A run that has complained and done nothing else. -/
structure Complains (s : Session) (r : Run) : Prop where
  /-- The messages hold a line of errors. -/
  line : HasErrorLine r.messages
  /-- Nothing is given out. -/
  output : r.output = ""
  /-- The files are as they were. -/
  files : r.session.disk.files = s.disk.files

theorem quiet_start (s : Session) (verbose : Bool) : Quiet s (Run.start s verbose) :=
  ⟨.inl rfl, rfl, rfl⟩

/-- A quiet run stays so when it shows records. -/
theorem Quiet.shown (h : Quiet s r) (records : List LogRecord) :
    Quiet s { r with messages := r.messages ++ shown r.verbose records } where
  messages := h.messages.append (endsLine_shown r.verbose records)
  output := h.output
  disk := h.disk

/-- A quiet run that complains has done nothing else. -/
theorem Quiet.complains (h : Quiet s r) (message after : String) :
    Complains s { r with messages := r.messages ++ ("Error: " ++ message ++ "\n" ++ after) } where
  line := hasErrorLine_complain h.messages message after
  output := h.output
  files := congrArg Disk.files h.disk

/-! ## Coming to the source -/

section Limited

variable [Limits]

/-- A path that leads to a source. -/
structure IsSource (d : Disk) (file source : String) : Prop where
  /-- The source is where the path leads. -/
  resolve_eq : d.resolve file = .ok source
  /-- The source is a file. -/
  isFile : d.isFile source = true

/-- Where there is a source, the command goes on with it. -/
theorem run_onSource (h : IsSource s.disk file source) (work : String → Work Nat) :
    (onSource file work).run (Run.start s verbose) = (work source).run (Run.start s verbose) := by
  obtain ⟨hresolve, hfile⟩ := h
  unfold onSource
  rw [run_resolve_bind, Run.session_start, hresolve]
  simp only
  rw [run_isFile_bind, Run.session_start]
  cases hprobe : s.disk.probe source with
  | ok node? =>
    have hnode := (Disk.isFile_of_probe hprobe).symm.trans hfile
    simp only [hnode, if_true]
  | error fault =>
    obtain ⟨-, hfind⟩ := Disk.probe_eq_error.1 hprobe
    simp [Disk.isFile, Disk.find?, hfind, Except.toOption] at hfile

/-- A command that asks for its source fails where its path holds a NUL. -/
theorem run_onSource_of_nul (hnul : '\x00' ∈ file.toList) (work : String → Work Nat) :
    (onSource file work).run (Run.start s verbose) =
      (.error (.disk (.nul (some "lstat"))), Run.start s verbose) := by
  unfold onSource
  rw [run_resolve_bind, Run.session_start, Disk.resolve_eq_error_iff.2 ⟨hnul, rfl⟩]

/-- A command that asks for its source fails where its path or a name on the way to it is too long.
-/
theorem run_onSource_of_longName (hresolve : s.disk.resolve file = .ok source)
    (hfind : s.disk.find source = .error (.refused .longName source)) (work : String → Work Nat) :
    (onSource file work).run (Run.start s verbose) =
      (.error (.disk (.refused .longName source)), Run.start s verbose) := by
  unfold onSource
  rw [run_resolve_bind, Run.session_start, hresolve]
  simp only
  rw [run_isFile_bind, Run.session_start, Disk.probe_eq_error.2 ⟨rfl, hfind⟩]

/-! ## Inlining -/

/-- How inlining a source goes. -/
def inlining (d : Disk) (source : String) : Import.Flattening :=
  Import.flatten d (Path.parent source) Import.bracedExtension source

/-- Inlining that fails fails for a fault of a file, for imports that come back, or for a NUL. -/
theorem cycle_or_fault_of_inlining {failure : Failure}
    (h : (inlining s.disk source).text = .error failure) :
    failure = .importCycle ∨ isFileFault failure = true ∨ failure = .disk (.nul none) := by
  have hresult : (inlining s.disk source).result = .error failure := by
    unfold Import.Flattening.text at h
    cases hresult : (inlining s.disk source).result with
    | ok text =>
      rw [hresult] at h
      cases h
    | error other =>
      rw [hresult] at h
      rw [Except.error.inj h]
  rcases Import.cycle_or_fault_of_result hresult with rfl | ⟨_, _, rfl⟩ | ⟨_, rfl⟩ | rfl
  · exact .inl rfl
  · exact .inr (.inl rfl)
  · exact .inr (.inl rfl)
  · exact .inr (.inr rfl)

/-- Inlining fails for a NUL exactly if it comes to a path with one. -/
theorem inlining_eq_nul_iff : (inlining s.disk source).text = .error (.disk (.nul none)) ↔
    ∃ path reading, (path, reading) ∈ (inlining s.disk source).reads ∧ '\x00' ∈ path.toList := by
  rw [inlining, Import.flatten, ← Import.result_eq_nul_iff, Import.Flattening.text]
  cases (Import.flattenWithin s.disk (Path.parent source) Import.bracedExtension
    (Limits.flattenDepth.getD (Import.chainBound s.disk)) source).result <;> simp [Except.map]

/-- Where inlining comes to a NUL, it fails. -/
theorem exists_inline_run_of_nul (hresolve : s.disk.resolve file = .ok source)
    (hnul : (inlining s.disk source).text = .error (.disk (.nul none))) :
    ∃ r, (inline file).run (Run.start s verbose) = (.error (.disk (.nul none)), r) := by
  unfold inline
  rw [run_resolve_bind, Run.session_start, hresolve]
  simp only
  rw [run_disk_bind, Run.session_start, run_bind_of_ok (run_log _ _), ← inlining, hnul]
  exact ⟨_, rfl⟩

/-! ## Listing dependencies -/

/-- A file with text is loaded. -/
theorem load_fresh_of_text {text : String} (htext : s.disk.readText source = .ok text)
    (bundlePath : String) : (Sheet.fresh source bundlePath).load s.disk =
      .ok ({ Sheet.fresh source bundlePath with contents := some text }, []) := by
  have hread : s.disk.readText (Sheet.fresh source bundlePath).path = .ok text := htext
  simp only [Sheet.load, hread]
  rfl

/-- A file without text is not loaded. -/
theorem load_fresh_of_undecodable {fault : Text.Utf8.Fault}
    (htext : s.disk.readText source = .error (.undecodable fault)) (bundlePath : String) :
    (Sheet.fresh source bundlePath).load s.disk = .error (.undecodable fault) :=
  Sheet.load_eq_error_iff.2 ⟨rfl, htext, fun _ h => by cases h⟩

/-- What is printed for some files: a line for each. -/
def listing (found : List String) : String := String.join (found.map (· ++ "\n"))

/-- A listing of a source with text is done if the search is, and fails as the search does. It
prints what the search finds. -/
theorem exists_listDependencies_run (hd : s.disk.WellFormed) (h : IsSource s.disk file source)
    {text : String} (htext : s.disk.readText source = .ok text) (verbose : Bool)
    (includePaths : List String) :
    ∃ r, (listDependencies includePaths file).run (Run.start s verbose) =
        ((Dependency.dependencies s.disk (listingSearch includePaths (Path.parent source) source)
          source text).map fun _ => done, r) ∧
      ∀ found, Dependency.dependencies s.disk
        (listingSearch includePaths (Path.parent source) source) source text = .ok found →
          r.output = listing found := by
  obtain ⟨bundlePath, hsheet⟩ := exists_inProject_rooted hd h.resolve_eq
  unfold listDependencies
  rw [run_onSource h]
  simp only
  rw [run_disk_bind, Run.session_start, hsheet, run_ofResult_bind]
  simp only
  rw [run_disk_bind, Run.session_start, load_fresh_of_text htext]
  simp only
  rw [run_bind_of_ok (run_log _ _), run_disk_bind, run_ofResult_bind]
  split
  next found hfound =>
    have hsame : Dependency.dependencies s.disk
        (listingSearch includePaths (Path.parent source) source) source text = .ok found := hfound
    rw [hsame]
    refine ⟨_, rfl, fun found' hfound' => ?_⟩
    rw [← Except.ok.inj hfound']
    exact String.empty_append
  next failure hfails =>
    have hsame : Dependency.dependencies s.disk
        (listingSearch includePaths (Path.parent source) source) source text = .error failure :=
      hfails
    rw [hsame]
    exact ⟨_, rfl, fun found hfound => by cases hfound⟩

/-- A listing that is done: its source holds text, and what the text depends on is printed. -/
structure Lists (s : Session) (includePaths : List String) (file source text : String)
    (found : List String) (r : Run) : Prop where
  /-- The path leads to the source. -/
  isSource : IsSource s.disk file source
  /-- The source holds the text. -/
  text_eq : s.disk.readText source = .ok text
  /-- The text depends on the files found. -/
  dependencies_eq : Dependency.dependencies s.disk
    (listingSearch includePaths (Path.parent source) source) source text = .ok found
  /-- They are printed. -/
  output_eq : r.output = listing found

end Limited

/-- A search without a hook is steady. -/
theorem isSteady_listingSearch (d : Disk) (includePaths : List String) (directory source : String) :
    (listingSearch includePaths directory source).IsSteady d := .of_none rfl

/-! ## How a command ends -/

variable [Limits] [Cache.Entry.Reader] [Settings.Reader]

/-- A compile that has all that its pass starts with. -/
structure Starts (d : Disk) (config cacheDirectory : Option String) (file source : String)
    (settings : Settings) (p : Project) (sheet : Sheet) : Prop where
  /-- There is a source. -/
  isSource : IsSource d file source
  /-- There are settings. -/
  settings_eq : loadSettings d config = .ok settings
  /-- The project is that of the source, with the cache that is named. -/
  project : ∃ cache, cacheOf d cacheDirectory = .ok cache ∧ p = projectOf d source cache
  /-- The stylesheet is the source's. -/
  sheet_eq : Sheet.inProject d p source = .ok sheet

/-- The pass of a compile before it is run. -/
def firstPass (s : Session) (sheet : Sheet) : Transform.Pass := ⟨s, none, sheet, []⟩

/-- The disk after compiled text and its source map are written, the map beside the text. -/
def written (out : String) (sheet : Sheet) (d : Disk) : Except Disk.Fault Disk :=
  match d.makeDirectories (Path.parent (Path.tidy out)) with
  | .error fault => .error fault
  | .ok d =>
    match d.writeText (Path.tidy out) (sheet.contents.getD "") with
    | .error fault => .error fault
    | .ok d =>
      let map := Path.child (Path.parent (Path.tidy out)) (Path.fileName (Path.tidy out) ++ ".map")
      if sheet.sourceMap.getD "" = "" then .ok d
      else d.writeText map (sheet.sourceMap.getD "")

/-- Why a command ends with a failure that it does not deal with. -/
inductive Escapes (s : Session) : Task → (file : String) → Failure → Prop
  /-- The path of the source holds a NUL. -/
  | sourceNul {task : Task} {file : String} (mem : '\x00' ∈ file.toList) :
      Escapes s task file (.disk (.nul (some "lstat")))
  /-- The path of the source or a name on the way to it is too long, and the command asks first
  whether the source is a file. -/
  | sourceName {task : Task} {file source : String} (asks : task ≠ .inline)
      (resolve_eq : s.disk.resolve file = .ok source)
      (find_eq : s.disk.find source = .error (.refused .longName source)) :
      Escapes s task file (.disk (.refused .longName source))
  /-- Inlining comes to an import with a NUL in its path. -/
  | importNul {file source path : String} {reading : Import.Reading}
      (resolve_eq : s.disk.resolve file = .ok source)
      (mem : (path, reading) ∈ (inlining s.disk source).reads) (nul : '\x00' ∈ path.toList) :
      Escapes s .inline file (.disk (.nul none))
  /-- A file whose dependencies are listed is text, and one that it depends on is not. -/
  | dependency {includePaths : List String} {file source text : String} {fault : Text.Utf8.Fault}
      (source_eq : IsSource s.disk file source) (text_eq : s.disk.readText source = .ok text)
      (dependencies_eq : Dependency.dependencies s.disk
        (listingSearch includePaths (Path.parent source) source) source text =
          .error (.undecodable fault)) :
      Escapes s (.dependencies includePaths) file (.undecodable fault)
  /-- A file whose dependencies are listed depends on others over more imports than calls go down.
  -/
  | depth {includePaths : List String} {file source text : String} {most : ℕ}
      (source_eq : IsSource s.disk file source) (text_eq : s.disk.readText source = .ok text)
      (bounded : Limits.importDepth = some most)
      (dependencies_eq : Dependency.dependencies s.disk
        (listingSearch includePaths (Path.parent source) source) source text =
          .error (.raised Dependency.tooDeepMessage)) :
      Escapes s (.dependencies includePaths) file (.raised Dependency.tooDeepMessage)
  /-- No settings are named, and the path of those in the working directory is too long. -/
  | usualFile {out cacheDirectory : Option String} {file source : String}
      (source_eq : IsSource s.disk file source)
      (find_eq : s.disk.find (usualFile s.disk) =
        .error (.refused .longName (usualFile s.disk))) :
      Escapes s (.compile none out cacheDirectory) file
        (.disk (.refused .longName (usualFile s.disk)))
  /-- The settings are not loaded, and that is no fault of the settings. -/
  | settings {config out cacheDirectory : Option String} {file source path : String}
      {failure : Failure} (source_eq : IsSource s.disk file source)
      (file_eq : settingsFile s.disk config = .ok (some path))
      (escapes : Settings.Escapes s.disk path failure) :
      Escapes s (.compile config out cacheDirectory) file failure
  /-- The path of the cache holds a NUL. -/
  | cacheNul {config out : Option String} {file source directory : String} {settings : Settings}
      (source_eq : IsSource s.disk file source)
      (settings_eq : loadSettings s.disk config = .ok settings)
      (mem : '\x00' ∈ directory.toList) :
      Escapes s (.compile config out (some directory)) file (.disk (.nul (some "lstat")))
  /-- The resources are read, and the first one that cannot be has a NUL in its path. -/
  | resource {config out cacheDirectory : Option String} {file source text : String}
      {settings : Settings} {p : Project} {sheet : Sheet}
      (starts : Starts s.disk config cacheDirectory file source settings p sheet)
      (misses : Transform.Misses settings p s.disk source)
      (text_eq : s.disk.readText source = .ok text) (nonempty : text ≠ "")
      (unread : s.resources = none)
      (texts_eq : Session.readTexts s.disk settings.resources = .error (.disk (.nul none))) :
      Escapes s (.compile config out cacheDirectory) file (.disk (.nul none))
  /-- The stylesheet that is compiled depends on others over more imports than calls go down. -/
  | requestDepth {config out cacheDirectory given : Option String} {file source text : String}
      {settings : Settings} {p : Project} {sheet : Sheet} {most : ℕ}
      (starts : Starts s.disk config cacheDirectory file source settings p sheet)
      (misses : Transform.Misses settings p s.disk source)
      (text_eq : s.disk.readText source = .ok text) (nonempty : text ≠ "")
      (resources_eq : Transform.resourcesOf settings s = .ok given)
      (bounded : Limits.importDepth = some most)
      (dependencies_eq : Dependency.dependencies s.disk
        (Transform.searchOf (Transform.requestFor settings p sheet text given)) source text =
          .error (.raised Dependency.tooDeepMessage)) :
      Escapes s (.compile config out cacheDirectory) file (.raised Dependency.tooDeepMessage)
  /-- The stylesheet compiles, and its text or its source map cannot be written. -/
  | output {config cacheDirectory : Option String} {out file source : String} {settings : Settings}
      {p : Project} {sheet : Sheet} {pass : Transform.Pass} {fault : Disk.Fault}
      (starts : Starts s.disk config cacheDirectory file source settings p sheet)
      (run_eq : (Transform.transform settings p).run (firstPass s sheet) = (.ok (), pass))
      (clean : pass.sheet.errors = [])
      (written_eq : written out pass.sheet pass.session.disk = .error fault) :
      Escapes s (.compile config (some out) cacheDirectory) file (.disk fault)

/-- How a command ends: it is done, it complains, or a failure escapes. -/
inductive Concludes (s : Session) (task : Task) (file : String) : Except Failure Nat × Run → Prop
  /-- The command is done. -/
  | done {r : Run} : Concludes s task file (.ok done, r)
  /-- The input is at fault. -/
  | complains {r : Run} (complains : Complains s r) : Concludes s task file (.ok faulty, r)
  /-- A failure is not dealt with. -/
  | escapes {failure : Failure} {r : Run} (escapes : Escapes s task file failure) :
      Concludes s task file (.error failure, r)

/-- How a command ends that is not done: it complains, or a failure escapes. -/
inductive Fails (s : Session) (task : Task) (file : String) : Except Failure Nat × Run → Prop
  /-- The input is at fault. -/
  | complains {r : Run} (complains : Complains s r) : Fails s task file (.ok faulty, r)
  /-- A failure is not dealt with. -/
  | escapes {failure : Failure} {r : Run} (escapes : Escapes s task file failure) :
      Fails s task file (.error failure, r)

/-- A command that is not done has ended. -/
theorem Fails.concludes {outcome : Except Failure Nat × Run} (h : Fails s task file outcome) :
    Concludes s task file outcome := by
  cases h with
  | complains h => exact .complains h
  | escapes h => exact .escapes h

/-- A command that fails does not end like one that is done. -/
theorem Fails.ne_done {outcome : Except Failure Nat × Run} (h : Fails s task file outcome) :
    outcome.1 ≠ .ok done := by
  cases h with
  | complains => simp [done, faulty]
  | escapes => simp

/-- A command that complains of one thing ends there. -/
theorem Quiet.fails_complain (h : Quiet s r) (message : String) :
    Fails s task file (Work.run (do complain message; return faulty) r) := by
  have hcomplains := h.complains message ""
  rw [String.append_empty] at hcomplains
  rw [run_bind_of_ok (run_complain message r)]
  exact .complains hcomplains

/-! ## Tasks that only read -/

/-- Inlining is done, complains, or comes to a NUL. -/
theorem concludes_inline (s : Session) (verbose : Bool) (file : String) :
    Concludes s .inline file ((inline file).run (Run.start s verbose)) := by
  unfold inline
  rw [run_resolve_bind, Run.session_start]
  split
  next source hresolve =>
    rw [run_disk_bind, Run.session_start]
    simp only
    rw [run_bind_of_ok (run_log _ _)]
    have hquiet := (quiet_start s verbose).shown (inlining s.disk source).records
    split
    next => exact .done
    next => exact (hquiet.fails_complain _).concludes
    next failure hother htext =>
      split
      next => exact (hquiet.fails_complain _).concludes
      next hfault =>
        rcases cycle_or_fault_of_inlining htext with hcycle | hfile | rfl
        · exact absurd hcycle hother
        · exact absurd hfile hfault
        · obtain ⟨path, reading, hmem, hnul⟩ := inlining_eq_nul_iff.1 htext
          exact .escapes (.importNul hresolve hmem hnul)
  next fault hresolve =>
    obtain ⟨hnul, rfl⟩ := Disk.resolve_eq_error_iff.1 hresolve
    exact .escapes (.sourceNul hnul)

/-- A command that asks for its source complains or escapes where there is none. -/
theorem fails_onSource (hasks : task ≠ .inline)
    (hnone : ¬∃ source, IsSource s.disk file source) (verbose : Bool) (work : String → Work Nat) :
    Fails s task file ((onSource file work).run (Run.start s verbose)) := by
  unfold onSource
  rw [run_resolve_bind, Run.session_start]
  split
  next source hresolve =>
    rw [run_isFile_bind, Run.session_start]
    split
    next node? hprobe =>
      have hfile := Disk.isFile_of_probe hprobe
      split
      next hnode => exact absurd ⟨source, hresolve, hfile.trans hnode⟩ hnone
      next => exact (quiet_start s verbose).fails_complain _
    next fault hprobe =>
      obtain ⟨rfl, hfind⟩ := Disk.probe_eq_error.1 hprobe
      exact .escapes (.sourceName hasks hresolve hfind)
  next fault hresolve =>
    obtain ⟨hnul, rfl⟩ := Disk.resolve_eq_error_iff.1 hresolve
    exact .escapes (.sourceNul hnul)

/-- Listing dependencies prints them, or it complains, comes to a file that is no UTF-8, or has to
go down too far. -/
theorem listDependencies_cases (hd : s.disk.WellFormed) (verbose : Bool)
    (includePaths : List String) (file : String) :
    (∃ source text found r, Lists s includePaths file source text found r ∧
      (listDependencies includePaths file).run (Run.start s verbose) = (.ok done, r)) ∨
    Fails s (.dependencies includePaths) file
      ((listDependencies includePaths file).run (Run.start s verbose)) := by
  by_cases hthere : ∃ source, IsSource s.disk file source
  · obtain ⟨source, hsource⟩ := hthere
    rcases Dependency.ok_or_undecodable_of_isFile hsource.isFile with
      ⟨text, htext⟩ | ⟨fault, htext⟩
    · obtain ⟨r, hrun, houtput⟩ :=
        exists_listDependencies_run hd hsource htext verbose includePaths
      cases hfound : Dependency.dependencies s.disk
          (listingSearch includePaths (Path.parent source) source) source text with
      | ok found =>
        rw [hfound] at hrun
        exact .inl ⟨source, text, found, r, ⟨hsource, htext, hfound, houtput found hfound⟩, hrun⟩
      | error failure =>
        rw [hrun, hfound]
        obtain ⟨fault, rfl⟩ | ⟨⟨most, hbounded⟩, rfl⟩ :=
          Dependency.undecodable_or_tooDeep_of_dependencies hd
            (isSteady_listingSearch s.disk includePaths _ source) hfound
        · exact .inr (.escapes (.dependency hsource htext hfound))
        · exact .inr (.escapes (.depth hsource htext hbounded hfound))
    · obtain ⟨bundlePath, hsheet⟩ := exists_inProject_rooted hd hsource.resolve_eq
      right
      unfold listDependencies
      rw [run_onSource hsource]
      simp only
      rw [run_disk_bind, Run.session_start, hsheet, run_ofResult_bind]
      simp only
      rw [run_disk_bind, Run.session_start, load_fresh_of_undecodable htext]
      simp only [isFileFault, if_true]
      exact (quiet_start s verbose).fails_complain _
  · exact .inr (fails_onSource (by simp) hthere verbose _)

/-- Listing dependencies is done, complains, comes to a file that is no UTF-8, or has to go down too
far. -/
theorem concludes_listDependencies (hd : s.disk.WellFormed) (verbose : Bool)
    (includePaths : List String) (file : String) :
    Concludes s (.dependencies includePaths) file
      ((listDependencies includePaths file).run (Run.start s verbose)) := by
  rcases listDependencies_cases hd verbose includePaths file with
    ⟨source, text, found, r, -, hrun⟩ | hfails
  · rw [hrun]
    exact .done
  · exact hfails.concludes

end StyleBundle.Command
