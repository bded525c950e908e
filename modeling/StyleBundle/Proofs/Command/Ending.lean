import StyleBundle.Proofs.Command.Compile

/-!
# How the program ends

With arguments that name a task the program is done, complains cleanly, or ends with one of the
failures that escape. Each of these does end it.
-/

namespace StyleBundle.Command

open Work

section Limited

variable [Limits] [Cache.Entry.Reader] [Settings.Reader] {s : Session} {verbose : Bool}
  {task : Task} {file source : String} {failure : Failure}
  {config out cacheDirectory : Option String} {settings : Settings} {p : Project} {sheet : Sheet}

/-! ## Failures that escape -/

/-- Inlining aside, a task asks for its source first. -/
theorem exists_run_eq_onSource (hasks : task ≠ .inline) (file : String) :
    ∃ work, task.run file = onSource file work := by
  cases task with
  | compile config out cacheDirectory => exact ⟨_, rfl⟩
  | inline => exact absurd rfl hasks
  | dependencies includePaths => exact ⟨_, rfl⟩

/-- A task fails where the path of its source holds a NUL. -/
theorem exists_run_of_nul (hnul : '\x00' ∈ file.toList) (task : Task) (verbose : Bool) :
    ∃ r, (task.run file).run (Run.start s verbose) = (.error (.disk (.nul (some "lstat"))), r) := by
  by_cases hasks : task = .inline
  · subst hasks
    rw [Task.run, inline, run_resolve_bind, Run.session_start,
      Disk.resolve_eq_error_iff.2 ⟨hnul, rfl⟩]
    exact ⟨_, rfl⟩
  · obtain ⟨work, hwork⟩ := exists_run_eq_onSource hasks file
    rw [hwork, run_onSource_of_nul hnul]
    exact ⟨_, rfl⟩

/-- A compile fails where its pass stops for no fault of the files. -/
theorem exists_compile_run_of_stops (hs : s.AnswersOnce)
    (hstarts : Starts s.disk config cacheDirectory file source settings p sheet)
    (hstops : Transform.Stops settings p (firstPass s sheet) failure)
    (hfault : isPassFault failure = false) (out : Option String) (verbose : Bool) :
    ∃ r, (compile config out cacheDirectory file).run (Run.start s verbose) =
      (.error failure, r) := by
  obtain ⟨compiler, hcompiler, hanswers⟩ := hs
  have hkind : Transform.compilerOf (firstPass s sheet) = .ok compiler := hcompiler
  obtain ⟨pass, hpass⟩ := (Transform.exists_transform_run_eq_error_iff hkind hanswers).2 hstops
  rw [run_compile_of_starts hstarts, compileSheet,
    run_bind_of_ok (run_runPass (r := Run.start s verbose) hpass)]
  simp only [hfault]
  exact ⟨_, rfl⟩

/-- A compile fails where its text or its source map cannot be written. -/
theorem exists_compile_run_of_written {out : String} {pass : Transform.Pass} {fault : Disk.Fault}
    (hstarts : Starts s.disk config cacheDirectory file source settings p sheet)
    (hpass : (Transform.transform settings p).run (firstPass s sheet) = (.ok (), pass))
    (hclean : pass.sheet.errors = [])
    (hwritten : written out pass.sheet pass.session.disk = .error fault) (verbose : Bool) :
    ∃ r, (compile config (some out) cacheDirectory file).run (Run.start s verbose) =
      (.error (.disk fault), r) := by
  obtain ⟨r, hwrite⟩ := exists_writeOut_run source out pass.sheet
    (passed (Run.start s verbose) pass)
  have hdisk : (passed (Run.start s verbose) pass).session.disk = pass.session.disk := rfl
  rw [hdisk, hwritten] at hwrite
  rw [run_compile_of_starts hstarts, compileSheet,
    run_bind_of_ok (run_runPass (r := Run.start s verbose) hpass)]
  simp only [hclean, List.isEmpty_nil]
  exact ⟨r, run_bind_of_error hwrite _⟩

/-- What escapes ends the task. -/
theorem exists_run_of_escapes (hd : s.disk.WellFormed) (hs : s.AnswersOnce)
    (h : Escapes s task file failure) (verbose : Bool) :
    ∃ r, (task.run file).run (Run.start s verbose) = (.error failure, r) := by
  cases h with
  | sourceNul hnul => exact exists_run_of_nul hnul task verbose
  | sourceName hasks hresolve hfind =>
    obtain ⟨work, hwork⟩ := exists_run_eq_onSource hasks file
    rw [hwork, run_onSource_of_longName hresolve hfind]
    exact ⟨_, rfl⟩
  | importNul hresolve hmem hnul =>
    exact exists_inline_run_of_nul hresolve (inlining_eq_nul_iff.2 ⟨_, _, hmem, hnul⟩)
  | dependency hsource htext hfound =>
    obtain ⟨r, hrun, -⟩ := exists_listDependencies_run hd hsource htext verbose _
    rw [hfound] at hrun
    exact ⟨r, hrun⟩
  | depth hsource htext hbounded hfound =>
    obtain ⟨r, hrun, -⟩ := exists_listDependencies_run hd hsource htext verbose _
    rw [hfound] at hrun
    exact ⟨r, hrun⟩
  | usualFile hsource hfind =>
    have hsettings : loadSettings s.disk none =
        .error (.disk (.refused .longName (usualFile s.disk))) := by
      rw [loadSettings, settingsFile_eq_error_iff.2 ⟨rfl, rfl, hfind⟩]
    exact ⟨_, run_compile_of_loadSettings hsource hsettings (by simp) _ _ verbose⟩
  | @settings config out cacheDirectory _ _ path _ hsource hpath hescapes =>
    have hsettings : loadSettings s.disk config = .error failure := by
      rw [loadSettings, hpath]
      exact Settings.load_eq_error_iff.2 (.inr hescapes)
    exact ⟨_, run_compile_of_loadSettings hsource hsettings hescapes.ne_settings out cacheDirectory
      verbose⟩
  | cacheNul hsource hsettings hnul =>
    exact ⟨_, run_compile_of_cacheOf hsource hsettings
      (cacheOf_eq_error_iff.2 ⟨_, rfl, hnul, rfl⟩) _ verbose⟩
  | @resource _ _ _ _ source _ settings p _ hstarts hmiss htext hne hunread htexts =>
    obtain ⟨bundlePath, rfl⟩ := hstarts.exists_eq_fresh hd
    have hlacks : Transform.Lacks settings p (firstPass s (.fresh source bundlePath))
        (.disk (.nul none)) :=
      .resources (.inr ⟨rfl, htext⟩) hne (resourcesOf_eq_error_iff.2 ⟨hunread, htexts⟩)
    exact exists_compile_run_of_stops hs hstarts (.request hmiss hlacks) rfl _ verbose
  | @requestDepth _ _ _ _ _ source _ settings p _ _ hstarts hmiss htext hne hgiven _ hfound =>
    obtain ⟨bundlePath, rfl⟩ := hstarts.exists_eq_fresh hd
    have hlacks : Transform.Lacks settings p (firstPass s (.fresh source bundlePath))
        (.raised Dependency.tooDeepMessage) :=
      .dependencies (.inr ⟨rfl, htext⟩) hne hgiven hfound
    exact exists_compile_run_of_stops hs hstarts (.request hmiss hlacks) rfl _ verbose
  | output hstarts hpass hclean hwritten =>
    exact exists_compile_run_of_written hstarts hpass hclean hwritten verbose

/-! ## The program -/

/-- A task is done, complains or escapes. -/
theorem concludes_run [Settings.Reader.IsSafe] (hd : s.disk.WellFormed) (hs : s.AnswersOnce)
    (task : Task) (file : String) (verbose : Bool) :
    Concludes s task file ((task.run file).run (Run.start s verbose)) := by
  cases task with
  | compile config out cacheDirectory => exact concludes_compile hd hs verbose config out _ file
  | inline => exact concludes_inline s verbose file
  | dependencies includePaths => exact concludes_listDependencies hd verbose includePaths file

/-- With arguments that name a task the program does the task. -/
theorem run_of_parse {arguments : List String}
    (hparse : Invocation.parse arguments = .ok ⟨verbose, some (task, file)⟩)
    {ending : Except Failure Nat} {r : Run}
    (hrun : (task.run file).run (Run.start s verbose) = (ending, r)) :
    run s arguments = ⟨ending, r.output, r.messages, r.session⟩ := by
  have hsame : (ExceptT.run (task.run file)).run ⟨s, verbose, "", ""⟩ = (ending, r) := hrun
  rw [run, hparse]
  simp only [hsame]

/-- With arguments that name a task, and a compiler that calls back once, the program ends with a
failure exactly if that escapes, within whatever limits and whatever libraries read the settings and
the entries of the cache. Else it is done, or it ends with the status for faulty input, a line of
errors among its messages, no output, and the files as they were. -/
theorem run_ends [Settings.Reader.IsSafe] {arguments : List String} (hd : s.disk.WellFormed)
    (hs : s.AnswersOnce)
    (hparse : Invocation.parse arguments = .ok ⟨verbose, some (task, file)⟩) :
    (∀ failure, (run s arguments).ending = .error failure ↔ Escapes s task file failure) ∧
    ∀ status, (run s arguments).ending = .ok status → status = done ∨
      status = faulty ∧ HasErrorLine (run s arguments).messages ∧ (run s arguments).output = "" ∧
        (run s arguments).session.disk.files = s.disk.files := by
  have hconcludes := concludes_run hd hs task file verbose
  cases hrun : (task.run file).run (Run.start s verbose) with
  | mk ending r =>
  rw [hrun] at hconcludes
  rw [run_of_parse hparse hrun]
  refine ⟨fun failure => ⟨fun hending => ?_, fun hescapes => ?_⟩, fun status hending => ?_⟩
  · cases hconcludes with
    | done => cases hending
    | complains => cases hending
    | escapes hescapes =>
      obtain rfl := Except.error.inj hending
      exact hescapes
  · obtain ⟨r', hfails⟩ := exists_run_of_escapes hd hs hescapes verbose
    exact (Prod.mk.inj (hrun.symm.trans hfails)).1
  · cases hconcludes with
    | done => exact .inl (Except.ok.inj hending).symm
    | complains hcomplains =>
      exact .inr ⟨(Except.ok.inj hending).symm, hcomplains.line, hcomplains.output,
        hcomplains.files⟩
    | escapes => cases hending

end Limited

/-- A session whose compiler answers every request with the same diagnosis. -/
def refusing (d : Disk) : Session where
  disk := d
  engine := none
  compiler := some (.fresh (.host fun _ _ _ => ⟨none, .ok (⟨some ⟨"", "", 1, 1⟩, none⟩, [])⟩))
  resources := none

theorem answersOnce_refusing (d : Disk) : (refusing d).AnswersOnce :=
  ⟨_, rfl, fun _ _ _ => ⟨_, rfl, .inl rfl⟩⟩

/-- A disk on which a stylesheet imports another that is no UTF-8. -/
def garbled : Disk where
  nodes := [([], .directory ⟨0⟩), (["s"], .directory ⟨0⟩), (["s", "a.scss"], .file [0xff] ⟨0⟩),
    (["s", "main.scss"], .file (Text.Utf8.encode "@import 'a';".toList) ⟨0⟩)]
  home := ["s"]
  clock := ⟨1⟩

theorem wellFormed_garbled : garbled.WellFormed :=
  .of_nodes (by decide +kernel) (by decide +kernel) (by decide +kernel)

/-- A compile of a file that is not there complains cleanly. -/
theorem run_ends_without_source : garbled.WellFormed ∧ (refusing garbled).AnswersOnce ∧
    Invocation.parse ["compile", "b.scss"] =
      .ok ⟨false, some (.compile none none none, "b.scss")⟩ ∧
    (run (refusing garbled) ["compile", "b.scss"]).ending = .ok faulty ∧
    HasErrorLine (run (refusing garbled) ["compile", "b.scss"]).messages ∧
    (run (refusing garbled) ["compile", "b.scss"]).output = "" ∧
    (run (refusing garbled) ["compile", "b.scss"]).session.disk.files = garbled.files := by
  have hparse : Invocation.parse ["compile", "b.scss"] =
      .ok ⟨false, some (.compile none none none, "b.scss")⟩ := by rfl
  have hending : (run (refusing garbled) ["compile", "b.scss"]).ending = .ok faulty := by
    decide +kernel
  refine ⟨wellFormed_garbled, answersOnce_refusing _, hparse, hending, ?_⟩
  obtain ⟨-, hstatus⟩ := run_ends wellFormed_garbled (answersOnce_refusing _) hparse
  obtain hdone | ⟨-, hclean⟩ := hstatus faulty hending
  · cases hdone
  · exact hclean

/-- The stylesheet on the garbled disk is a source. -/
theorem isSource_garbled : IsSource garbled "main.scss" "/s/main.scss" :=
  ⟨by decide +kernel, by decide +kernel⟩

/-- Where a stylesheet imports another that is no UTF-8, listing its dependencies ends with a
failure that nothing has dealt with. -/
theorem exists_run_garbled : garbled.WellFormed ∧ (refusing garbled).AnswersOnce ∧
    Invocation.parse ["deps", "main.scss"] = .ok ⟨false, some (.dependencies [], "main.scss")⟩ ∧
    ∃ fault, (run (refusing garbled) ["deps", "main.scss"]).ending =
      .error (.undecodable fault) := by
  have hparse : Invocation.parse ["deps", "main.scss"] =
      .ok ⟨false, some (.dependencies [], "main.scss")⟩ := by rfl
  refine ⟨wellFormed_garbled, answersOnce_refusing _, hparse, ?_⟩
  have htext : garbled.readText "/s/main.scss" = .ok "@import 'a';" := by decide +kernel
  have hsteady := isSteady_listingSearch garbled [] "/s" "/s/main.scss"
  have hleads : Dependency.Leads garbled (listingSearch [] "/s" "/s/main.scss") "/s/main.scss" "a"
      "/s/a.scss" := ⟨by decide, "a", rfl, by decide +kernel⟩
  have himports : Dependency.Imports garbled (listingSearch [] "/s" "/s/main.scss")
      "/s/main.scss" "@import 'a';" "/s/main.scss" "/s/a.scss" :=
    ⟨_, rfl, ⟨"@import 'a';", "a"⟩, by simp [Dependency.statements_single], hleads⟩
  obtain ⟨failure, hfails⟩ := (Dependency.exists_dependencies_eq_error_iff wellFormed_garbled
    hsteady).2 ⟨"/s/a.scss", ⟨0xff, 0, 1, .badStart⟩, by decide, .single himports,
      by decide +kernel⟩
  obtain ⟨fault, rfl⟩ | ⟨⟨most, hbounded⟩, -⟩ :=
    Dependency.undecodable_or_tooDeep_of_dependencies wellFormed_garbled hsteady hfails
  swap
  · cases hbounded
  obtain ⟨r, hrun⟩ := exists_run_of_escapes wellFormed_garbled (answersOnce_refusing garbled)
    (.dependency isSource_garbled htext hfails) false
  exact ⟨fault, by rw [run_of_parse hparse hrun]⟩

end StyleBundle.Command
