import StyleBundle.Proofs.Cache.Layout
import StyleBundle.Proofs.Command.Escape
import StyleBundle.Proofs.Transform.Resources

/-!
# How compiling ends

A compile loads its settings, takes its source through a pass and writes the text out. What stops
the pass is a fault of the files given, but for resources with a NUL in a path; what stops the
rest escapes.
-/

namespace StyleBundle.Command

open Work

variable {s : Session} {verbose : Bool} {file source : String} {r : Run}
  {config out cacheDirectory : Option String} {settings : Settings} {p : Project} {sheet : Sheet}
  {failure : Failure}

/-! ## Settings and cache -/

section Settings

variable [Limits]

/-- Only the file of the working directory may fail to be looked for: its path is too long. -/
theorem settingsFile_eq_error_iff {d : Disk} {fault : Disk.Fault} :
    settingsFile d config = .error fault ↔ config = none ∧
      fault = .refused .longName (usualFile d) ∧
      d.find (usualFile d) = .error (.refused .longName (usualFile d)) := by
  rw [← Disk.probe_eq_error]
  cases config with
  | some path => simp [settingsFile]
  | none => cases hprobe : d.probe (usualFile d) <;> simp [settingsFile, hprobe, Except.map]

variable [Settings.Reader]

/-- Loaded settings hook imports in a way that is built in. -/
theorem isBuiltIn_of_loadSettings [Settings.Reader.IsSafe] {d : Disk}
    (h : loadSettings d config = .ok settings) : settings.importing.IsBuiltIn := by
  unfold loadSettings at h
  split at h
  · cases h
  · obtain rfl := Except.ok.inj h
    intro hook hcustom
    cases hcustom
  · exact Settings.isBuiltIn_of_load h

/-- Settings are not loaded because the usual file cannot be looked for, because they are at fault
themselves, or because the failure escapes. -/
theorem settings_or_escapes_of_loadSettings {d : Disk}
    (h : loadSettings d config = .error failure) : (∃ fault, failure = .settings fault) ∨
      (∃ fault, failure = .disk fault ∧ settingsFile d config = .error fault) ∨
      ∃ path, settingsFile d config = .ok (some path) ∧ Settings.Escapes d path failure := by
  unfold loadSettings at h
  split at h
  next fault hfile => exact .inr (.inl ⟨fault, (Except.error.inj h).symm, hfile⟩)
  next => cases h
  next path hpath =>
    rcases Settings.load_eq_error_iff.1 h with ⟨fault, hfault, -⟩ | hescapes
    · exact .inl ⟨fault, hfault⟩
    · exact .inr (.inr ⟨path, hpath, hescapes⟩)

end Settings

/-- The path of a cache that is named is resolved, unless it holds a NUL. -/
theorem cacheOf_eq_error_iff {d : Disk} : cacheOf d cacheDirectory = .error failure ↔
    ∃ directory, cacheDirectory = some directory ∧ '\x00' ∈ directory.toList ∧
      failure = .disk (.nul (some "lstat")) := by
  unfold cacheOf
  constructor
  · intro h
    split at h
    next => cases h
    next directory hnamed =>
      obtain ⟨hcache, -⟩ := Option.filter_eq_some_iff.1 hnamed
      split at h
      next => cases h
      next fault hresolve =>
        obtain ⟨hnul, rfl⟩ := Disk.resolve_eq_error_iff.1 hresolve
        exact ⟨directory, hcache, hnul, (Except.error.inj h).symm⟩
  · rintro ⟨directory, rfl, hnul, rfl⟩
    have hne : directory ≠ "" := by
      rintro rfl
      cases hnul
    have hresolve : d.resolve directory = .error (.nul (some "lstat")) :=
      Disk.resolve_eq_error_iff.2 ⟨hnul, rfl⟩
    simp [Option.filter, hne, hresolve]

/-- The path of a cache holds no NUL. -/
theorem nul_not_mem_of_cacheOf {d : Disk} (hd : d.WellFormed) {cache : Option String}
    {directory : String} (h : cacheOf d cacheDirectory = .ok cache)
    (hcache : cache = some directory) : '\x00' ∉ directory.toList := by
  unfold cacheOf at h
  split at h
  next =>
    rw [hcache] at h
    cases h
  next =>
    split at h
    next path hresolve =>
      rw [hcache] at h
      obtain rfl := Option.some.inj (Except.ok.inj h)
      exact hd.nul_not_mem_of_resolve hresolve
    next => cases h

/-! ## Passes -/

/-- Faults of the files are faults of a pass. -/
theorem isPassFault_of_isFileFault (h : isFileFault failure = true) :
    isPassFault failure = true := by
  cases failure <;> first | exact h | rfl

/-- A run that has shown what a pass logs. -/
def passed (r : Run) (pass : Transform.Pass) : Run :=
  { r with session := pass.session, messages := r.messages ++ shown r.verbose pass.records }

/-- A run stays quiet with a pass that leaves the disk as it is. -/
theorem Quiet.passed {pass : Transform.Pass} (h : Quiet s r)
    (hdisk : pass.session.disk = s.disk) : Quiet s (passed r pass) where
  messages := h.messages.append (endsLine_shown r.verbose pass.records)
  output := h.output
  disk := hdisk

variable [Limits]

/-- A pass is run, and what it logs is shown. -/
theorem run_runPass [Cache.Entry.Reader] {result : Except Failure Unit} {pass : Transform.Pass}
    (h : (Transform.transform settings p).run (firstPass r.session sheet) = (result, pass)) :
    (runPass settings p sheet).run r = (.ok (result, pass.sheet), passed r pass) := by
  have hpass : (runPass settings p sheet).run r =
      (.ok (((Transform.transform settings p).run (firstPass r.session sheet)).1,
        ((Transform.transform settings p).run (firstPass r.session sheet)).2.sheet),
        passed r ((Transform.transform settings p).run (firstPass r.session sheet)).2) := rfl
  rw [hpass, h]

/-- The resources fail exactly if they have not been read before and cannot be read. -/
theorem resourcesOf_eq_error_iff : Transform.resourcesOf settings s = .error failure ↔
    s.resources = none ∧ Session.readTexts s.disk settings.resources = .error failure := by
  unfold Transform.resourcesOf Session.loadResources
  split
  next hempty => simp [List.isEmpty_iff.1 hempty, Session.readTexts]
  next =>
    split
    next hread => simp [hread]
    next hunread =>
      split
      next hfails => simp [hunread, hfails]
      next htexts => simp [htexts]

/-- A text that cannot be read is a fault of the files, but for a NUL. -/
theorem isFileFault_or_nul_of_readText {d : Disk} {path : String}
    (h : d.readText path = .error failure) :
    isFileFault failure = true ∨ failure = .disk (.nul none) ∧ '\x00' ∈ path.toList := by
  rcases Cache.refused_or_escapes_of_readText h with ⟨cause, rfl⟩ | hescapes
  · exact .inl rfl
  · cases hescapes with
    | undecodable => exact .inl rfl
    | nul hnul => exact .inr ⟨rfl, hnul⟩

/-- The search of a request with settings that come from a file is steady. -/
theorem isSteady_searchOf {text : String} {given : Option String}
    (h : settings.importing.IsBuiltIn) (d : Disk) :
    (Transform.searchOf (Transform.requestFor settings p sheet text given)).IsSteady d := by
  intro hook hhook target origin
  have hhook : Request.hookOf p settings (Request.projectMacros p settings.macros) = some hook :=
    hhook
  unfold Request.hookOf at hhook
  split at hhook
  next => cases hhook
  next =>
    obtain rfl := Option.some.inj hhook
    exact ⟨_, fun _ => (apply_ite Except.ok ..).symm⟩
  next hook hcustom => exact absurd hcustom (h hook)

/-- An entry that cannot be stored is a fault of the cache, where there is no NUL in its path. -/
theorem isPassFault_of_writeEntry {d : Disk} {directory : String} {entry : Cache.Entry}
    (hnul : '\x00' ∉ directory.toList) (htag : entry.tag = Transform.tag)
    (h : Cache.writeEntry d directory entry = .error failure) : isPassFault failure = true := by
  have hentry : '\x00' ∉ (Cache.entryPath directory entry.path entry.tag).toList := by
    rw [htag]
    exact Cache.nul_not_mem_entryPath hnul Cache.isFileName_tag
  rw [Cache.writeEntry_eq] at h
  split at h
  next => cases h
  next =>
    obtain rfl := Except.error.inj h
    rfl
  next fault hother hfails =>
    cases hmade : d.makeDirectories
        (Path.parent (Cache.entryPath directory entry.path entry.tag)) with
    | error first =>
      rw [hmade] at hfails
      obtain rfl := Except.error.inj hfails
      obtain ⟨cause, path, rfl⟩ := Disk.exists_refused_of_makeDirectoriesWithin
        (mt (Path.mem_of_mem_parent (by decide) (by decide)) hentry) hmade
      exact absurd rfl (hother cause path)
    | ok made =>
      rw [hmade] at hfails
      obtain ⟨cause, path, rfl⟩ := Disk.exists_refused_of_writeText hentry hfails
      exact absurd rfl (hother cause path)

/-- Text that can be written is, and where it cannot be the failure is that of the disk. -/
theorem exists_writeOut_run (source out : String) (sheet : Sheet) (r : Run) :
    ∃ r', (writeOut source out sheet).run r =
      (((written out sheet r.session.disk).mapError Failure.disk).map fun _ => (), r') := by
  unfold writeOut written
  simp only
  rw [run_changeDisk_bind]
  cases r.session.disk.makeDirectories (Path.parent (Path.tidy out)) with
  | error fault => exact ⟨r, rfl⟩
  | ok made =>
    simp only
    rw [run_changeDisk_bind]
    simp only
    cases made.writeText (Path.tidy out) (sheet.contents.getD "") with
    | error fault => exact ⟨_, rfl⟩
    | ok texted =>
      simp only
      by_cases hmap : sheet.sourceMap.getD "" = ""
      · rw [if_neg (not_not_intro hmap), if_pos hmap]
        exact ⟨_, rfl⟩
      · rw [if_pos hmap, if_neg hmap, run_changeDisk_bind]
        simp only
        cases texted.writeText (Path.child (Path.parent (Path.tidy out))
            (Path.fileName (Path.tidy out) ++ ".map")) (sheet.sourceMap.getD "") with
        | error fault => exact ⟨_, rfl⟩
        | ok mapped => exact ⟨_, rfl⟩

variable [Settings.Reader]

/-- A compile starts with a stylesheet that nothing has been done with. -/
theorem Starts.exists_eq_fresh (hd : s.disk.WellFormed)
    (h : Starts s.disk config cacheDirectory file source settings p sheet) :
    ∃ bundlePath, sheet = .fresh source bundlePath := by
  obtain ⟨cache, -, hp⟩ := h.project
  obtain ⟨bundlePath, hsheet⟩ := exists_inProject_projectOf hd h.isSource.resolve_eq cache
  rw [← hp] at hsheet
  exact ⟨bundlePath, Except.ok.inj (h.sheet_eq.symm.trans hsheet)⟩

variable [Cache.Entry.Reader]

/-- A pass over a source that stops has met a fault of the files, resources with a NUL, or imports
that lie too deep. -/
theorem isPassFault_or_escapes_of_stops [Settings.Reader.IsSafe] (hd : s.disk.WellFormed)
    (hstarts : Starts s.disk config cacheDirectory file source settings p sheet)
    (h : Transform.Stops settings p (firstPass s sheet) failure) : isPassFault failure = true ∨
      Escapes s (.compile config out cacheDirectory) file failure := by
  obtain ⟨cache, hcache, hp⟩ := hstarts.project
  obtain ⟨bundlePath, rfl⟩ := hstarts.exists_eq_fresh hd
  cases h with
  | check huses hdirectory hbreaks => cases hbreaks <;> exact .inl rfl
  | request hmiss hlacks =>
    cases hlacks with
    | source hfresh htext hthere =>
      rcases isFileFault_or_nul_of_readText htext with hfault | ⟨rfl, hnul⟩
      · exact .inl (isPassFault_of_isFileFault hfault)
      · exact absurd hnul (hd.nul_not_mem_of_resolve hstarts.isSource.resolve_eq)
    | resources hloads hne hgiven =>
      obtain ⟨hunread, htexts⟩ := resourcesOf_eq_error_iff.1 hgiven
      obtain ⟨_, path, _, _, -, -, hfails⟩ := Session.readTexts_eq_error_iff.1 htexts
      rcases isFileFault_or_nul_of_readText hfails with hfault | ⟨rfl, -⟩
      · exact .inl (isPassFault_of_isFileFault hfault)
      · rcases hloads with hloaded | ⟨-, htext⟩
        · cases hloaded
        · exact .inr (.resource hstarts hmiss htext hne hunread htexts)
    | dependencies hloads hne hgiven hfound =>
      obtain ⟨fault, rfl⟩ | ⟨⟨most, hbounded⟩, rfl⟩ :=
        Dependency.undecodable_or_tooDeep_of_dependencies hd
          (isSteady_searchOf (isBuiltIn_of_loadSettings hstarts.settings_eq) s.disk) hfound
      · exact .inl rfl
      · rcases hloads with hloaded | ⟨-, htext⟩
        · cases hloaded
        · exact .inr (.requestDepth hstarts hmiss htext hne hgiven hbounded hfound)
  | entry hdirectory huses hmiss hmakes hcompiles hwritten =>
    rw [hp, cache_projectOf] at hdirectory
    have hnul := nul_not_mem_of_cacheOf hd hcache hdirectory
    exact .inl (isPassFault_of_writeEntry hnul rfl hwritten)

/-! ## Compiling a stylesheet -/

/-- Behind a pass without errors the text is written, or what keeps it from being written escapes.
-/
theorem concludes_writeOut {out : String} {pass : Transform.Pass}
    (hstarts : Starts s.disk config cacheDirectory file source settings p sheet)
    (hpass : (Transform.transform settings p).run (firstPass s sheet) = (.ok (), pass))
    (hclean : pass.sheet.errors = []) :
    Concludes s (.compile config (some out) cacheDirectory) file
      (Work.run (do writeOut source out pass.sheet; return done)
        (passed (Run.start s verbose) pass)) := by
  obtain ⟨r, hwrite⟩ := exists_writeOut_run source out pass.sheet
    (passed (Run.start s verbose) pass)
  have hdisk : (passed (Run.start s verbose) pass).session.disk = pass.session.disk := rfl
  rw [hdisk] at hwrite
  cases hwritten : written out pass.sheet pass.session.disk with
  | ok disk =>
    rw [hwritten] at hwrite
    rw [run_bind_of_ok hwrite]
    exact .done
  | error fault =>
    rw [hwritten] at hwrite
    rw [run_bind_of_error hwrite]
    exact .escapes (.output hstarts hpass hclean hwritten)

/-- Compiling a stylesheet is done, complains or escapes. -/
theorem concludes_compileSheet [Settings.Reader.IsSafe] (hd : s.disk.WellFormed)
    (hs : s.AnswersOnce) (verbose : Bool)
    (hstarts : Starts s.disk config cacheDirectory file source settings p sheet) :
    Concludes s (.compile config out cacheDirectory) file
      ((compileSheet settings p source out sheet).run (Run.start s verbose)) := by
  obtain ⟨compiler, hcompiler, hanswers⟩ := hs
  obtain ⟨bundlePath, rfl⟩ := hstarts.exists_eq_fresh hd
  have hkind : Transform.compilerOf (firstPass s (.fresh source bundlePath)) = .ok compiler :=
    hcompiler
  cases hpass : (Transform.transform settings p).run (firstPass s (.fresh source bundlePath)) with
  | mk result pass =>
  have hrun := run_runPass (r := Run.start s verbose) hpass
  have hquiet : pass.session.disk = s.disk → Quiet s (passed (Run.start s verbose) pass) :=
    (quiet_start s verbose).passed
  unfold compileSheet
  rw [run_bind_of_ok hrun]
  cases result with
  | error failure =>
    simp only
    split
    next => exact ((hquiet (Transform.disk_of_transform_error hpass)).fails_complain _).concludes
    next hfault =>
      have hstops := (Transform.exists_transform_run_eq_error_iff hkind hanswers).1 ⟨pass, hpass⟩
      rcases isPassFault_or_escapes_of_stops hd hstarts hstops with hpassFault | hescapes
      · exact absurd hpassFault hfault
      · exact .escapes hescapes
  | ok _ =>
    simp only
    split
    next hne =>
      have herrors : pass.sheet.errors ≠ [] := by simpa using hne
      have hdisk := Transform.disk_of_errors_ne hpass herrors
      obtain ⟨first, others, hcons⟩ := List.exists_cons_of_ne_nil herrors
      rw [run_bind_of_ok (run_complain_forM _ _), hcons, List.map_cons, String.join_cons]
      exact .complains ((hquiet hdisk).complains first _)
    next hclean =>
      split
      next => exact .done
      next out => exact concludes_writeOut hstarts hpass (by simpa using hclean)

/-! ## The whole compile -/

/-- A compile that has all that its pass starts with goes on with its stylesheet. -/
theorem run_compile_of_starts
    (h : Starts s.disk config cacheDirectory file source settings p sheet) (out : Option String)
    (verbose : Bool) : (compile config out cacheDirectory file).run (Run.start s verbose) =
      (compileSheet settings p source out sheet).run (Run.start s verbose) := by
  obtain ⟨cache, hcache, rfl⟩ := h.project
  unfold compile
  rw [run_onSource h.isSource, run_disk_bind, Run.session_start, h.settings_eq]
  simp only
  rw [run_disk_bind, Run.session_start, hcache, run_ofResult_bind]
  simp only
  rw [run_disk_bind, run_disk_bind, Run.session_start, h.sheet_eq, run_ofResult_bind]

/-- A compile whose settings are at fault complains of them. -/
theorem run_compile_of_settings {fault : SettingsFault} (h : IsSource s.disk file source)
    (hsettings : loadSettings s.disk config = .error (.settings fault))
    (out cacheDirectory : Option String) (verbose : Bool) :
    (compile config out cacheDirectory file).run (Run.start s verbose) =
      Work.run (do complain fault.message; return faulty) (Run.start s verbose) := by
  unfold compile
  rw [run_onSource h, run_disk_bind, Run.session_start, hsettings]

/-- A compile whose settings cannot be loaded for another reason fails. -/
theorem run_compile_of_loadSettings (h : IsSource s.disk file source)
    (hsettings : loadSettings s.disk config = .error failure)
    (hother : ∀ fault, failure ≠ .settings fault) (out cacheDirectory : Option String)
    (verbose : Bool) : (compile config out cacheDirectory file).run (Run.start s verbose) =
      (.error failure, Run.start s verbose) := by
  unfold compile
  rw [run_onSource h, run_disk_bind, Run.session_start, hsettings]
  cases failure with
  | settings fault => exact absurd rfl (hother fault)
  | _ => rfl

/-- A compile whose cache has no path fails. -/
theorem run_compile_of_cacheOf (h : IsSource s.disk file source)
    (hsettings : loadSettings s.disk config = .ok settings)
    (hcache : cacheOf s.disk cacheDirectory = .error failure) (out : Option String)
    (verbose : Bool) : (compile config out cacheDirectory file).run (Run.start s verbose) =
      (.error failure, Run.start s verbose) := by
  unfold compile
  rw [run_onSource h, run_disk_bind, Run.session_start, hsettings]
  simp only
  rw [run_disk_bind, Run.session_start, hcache, run_ofResult_bind]

/-- Compiling is done, complains or escapes. -/
theorem concludes_compile [Settings.Reader.IsSafe] (hd : s.disk.WellFormed)
    (hs : s.AnswersOnce) (verbose : Bool)
    (config out cacheDirectory : Option String) (file : String) :
    Concludes s (.compile config out cacheDirectory) file
      ((compile config out cacheDirectory file).run (Run.start s verbose)) := by
  by_cases hthere : ∃ source, IsSource s.disk file source
  · obtain ⟨source, hsource⟩ := hthere
    cases hsettings : loadSettings s.disk config with
    | error failure =>
      rcases settings_or_escapes_of_loadSettings hsettings with
        ⟨fault, rfl⟩ | ⟨fault, rfl, hfile⟩ | ⟨path, hpath, hescapes⟩
      · rw [run_compile_of_settings hsource hsettings]
        exact ((quiet_start s verbose).fails_complain _).concludes
      · rw [run_compile_of_loadSettings hsource hsettings (by simp)]
        obtain ⟨rfl, rfl, hfind⟩ := settingsFile_eq_error_iff.1 hfile
        exact .escapes (.usualFile hsource hfind)
      · rw [run_compile_of_loadSettings hsource hsettings hescapes.ne_settings]
        exact .escapes (.settings hsource hpath hescapes)
    | ok settings =>
      cases hcache : cacheOf s.disk cacheDirectory with
      | error failure =>
        rw [run_compile_of_cacheOf hsource hsettings hcache]
        obtain ⟨directory, rfl, hnul, rfl⟩ := cacheOf_eq_error_iff.1 hcache
        exact .escapes (.cacheNul hsource hsettings hnul)
      | ok cache =>
        obtain ⟨bundlePath, hsheet⟩ := exists_inProject_projectOf hd hsource.resolve_eq cache
        have hstarts : Starts s.disk config cacheDirectory file source settings
            (projectOf s.disk source cache) (.fresh source bundlePath) :=
          ⟨hsource, hsettings, ⟨cache, hcache, rfl⟩, hsheet⟩
        rw [run_compile_of_starts hstarts]
        exact concludes_compileSheet hd hs verbose hstarts
  · exact (fails_onSource (by simp) hthere verbose _).concludes

end StyleBundle.Command
