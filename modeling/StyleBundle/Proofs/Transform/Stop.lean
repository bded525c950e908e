import StyleBundle.Proofs.Cache.Damage
import StyleBundle.Proofs.Compile.Run
import StyleBundle.Proofs.Transform.Pass

/-!
# Where a pass stops

A pass whose compiler answers fails in five places only: at the check of the cache's entry, at the
source, at the resources, at the files that the stylesheet depends on, and at the entry that is
stored. A failed pass leaves the disk as it is.
-/

namespace StyleBundle

/-- A compiler that calls back once, with a diagnosis or with compiled text. -/
def Compiler.Kind.AnswersOnce : Compiler.Kind → Prop
  | .host reply => ∀ calls d request, ∃ report, (reply calls d request).reports = .ok (report, []) ∧
      (report.diagnosis.isSome = true ∨ report.output.isSome = true)
  | .engine style => ∀ d request, ∃ report,
      (Engine.run (fun _ => .ok ()) (style.compile d request)).reports = [report]

/-- A session whose shared compiler calls back once. -/
def Session.AnswersOnce (s : Session) : Prop :=
  ∃ compiler, s.sharedCompiler = .ok compiler ∧ compiler.kind.AnswersOnce

/-- A compile by such a compiler gives its report. -/
theorem Compiler.exists_report_of_answersOnce {compiler : Compiler}
    (h : compiler.kind.AnswersOnce) (d : Disk) (request : Request) : ∃ report,
      (compiler.render d request).report = .ok report ∧
      (report.diagnosis.isSome = true ∨ report.output.isSome = true) := by
  unfold Compiler.render
  cases hkind : compiler.kind with
  | host reply =>
    rw [hkind] at h
    obtain ⟨report, hreports, hanswers⟩ := h compiler.count d request
    exact ⟨report, by simp only [hreports]; rfl, hanswers⟩
  | engine engine =>
    rw [hkind] at h
    obtain ⟨first, hfirst⟩ := h d request
    rcases Engine.run_cases (fun _ => .ok ()) (engine.compile d request) with
      ⟨report, records, hrun, hanswers⟩ | ⟨failure, hrun⟩
    · exact ⟨report, by simp only [hrun]; rfl, hanswers⟩
    · rw [hrun] at hfirst
      cases hfirst

/-- A stylesheet cannot be loaded exactly if it has no text yet and its source is there but cannot
be read. -/
theorem Sheet.load_eq_error_iff [Limits] {d : Disk} {sheet : Sheet} {failure : Failure} :
    sheet.load d = .error failure ↔ sheet.contents = none ∧
      d.readText sheet.path = .error failure ∧
      ∀ path, failure ≠ .disk (.refused .missing path) := by
  unfold Sheet.load
  split
  next hloaded => simp [Option.ne_none_iff_isSome.2 hloaded]
  next hfresh =>
    have hnone : sheet.contents = none := by simpa using hfresh
    split
    next htext => simp [htext]
    next path htext =>
      simp only [htext, reduceCtorEq, false_iff]
      rintro ⟨-, hfailure, hthere⟩
      exact hthere path (Except.error.inj hfailure).symm
    next other hother htext =>
      constructor
      · intro h
        obtain rfl := Except.error.inj h
        exact ⟨hnone, htext, hother⟩
      · rintro ⟨-, hfailure, -⟩
        rw [Except.error.inj (htext.symm.trans hfailure)]

namespace Transform

variable {pass pass' mid : Pass} {settings : Settings} {p : Project} {failure : Failure}

/-- A compiler that answers gives a report of the request that a pass submits. -/
theorem exists_report_of_submit {compiler : Compiler} {request : Request}
    {answer : Except Failure Report} (hcompiler : compilerOf pass = .ok compiler)
    (hanswers : compiler.kind.AnswersOnce) (h : (submit request).run pass = (answer, pass')) :
    ∃ report, answer = .ok report ∧
      (compiler.render pass.session.disk request).report = .ok report ∧
      (report.diagnosis.isSome = true ∨ report.output.isSome = true) := by
  obtain ⟨report, hreport, hgives⟩ :=
    compiler.exists_report_of_answersOnce hanswers pass.session.disk request
  refine ⟨report, ?_, hreport, hgives⟩
  rw [(submits_of_run h).answer_eq, hcompiler]
  exact hreport

variable [Limits]

/-- The part behind the compile fails with an answer only where the entry cannot be stored. -/
theorem exists_of_settle_error {report : Report}
    (hgives : report.diagnosis.isSome = true ∨ report.output.isSome = true)
    (h : (settle settings p report).run pass = (.error failure, pass')) :
    ∃ directory output, report = ⟨none, some output⟩ ∧ p.cache = some directory ∧
      usesCache settings p = true ∧
      Cache.writeEntry pass.session.disk directory (entryFor pass.sheet output) =
        .error failure := by
  cases settles_of_run h with
  | void => simp at hgives
  | unstored hcache huses hwritten => exact ⟨_, _, rfl, hcache, huses, hwritten⟩

/-- Why no request is made where there is a compiler. -/
inductive Lacks (settings : Settings) (p : Project) (pass : Pass) : Failure → Prop
  /-- The stylesheet has no text yet, and its source is there but cannot be read. -/
  | source {failure : Failure} (fresh : pass.sheet.contents = none)
      (text_eq : pass.session.disk.readText pass.sheet.path = .error failure)
      (there : ∀ path, failure ≠ .disk (.refused .missing path)) : Lacks settings p pass failure
  /-- The source is loaded, and the resources cannot be read. -/
  | resources {text : String} {failure : Failure}
      (loads : Loads pass.session.disk pass.sheet text) (nonempty : text ≠ "")
      (resources_eq : resourcesOf settings pass.session = .error failure) :
      Lacks settings p pass failure
  /-- The resources are read, and the dependencies cannot be extracted. -/
  | dependencies {text : String} {given : Option String} {failure : Failure}
      (loads : Loads pass.session.disk pass.sheet text) (nonempty : text ≠ "")
      (resources_eq : resourcesOf settings pass.session = .ok given)
      (dependencies_eq : Dependency.dependencies pass.session.disk
        (searchOf (requestFor settings p pass.sheet text given)) pass.sheet.path text =
          .error failure) : Lacks settings p pass failure

/-! ## The part before the compile -/

/-- Loading fails exactly if the stylesheet cannot be loaded. -/
theorem load_run_eq_error_iff : load.run pass = (.error failure, mid) ↔
    mid = pass ∧ pass.sheet.load pass.session.disk = .error failure := by
  rw [load, run_get_bind, run_bind, run_ofResult]
  cases pass.sheet.load pass.session.disk with
  | error other => simp [eq_comm, and_comm]
  | ok loaded =>
    simp only [run_changeSheet_bind, run_log]
    simp

/-- Extracting the dependencies fails exactly if they cannot be extracted. -/
theorem extractDependencies_run_eq_error_iff {r : Request} :
    (extractDependencies r).run pass = (.error failure, mid) ↔ mid = pass ∧
      Dependency.dependencies pass.session.disk (searchOf r) pass.sheet.path
        (pass.sheet.contents.getD "") = .error failure := by
  rw [extractDependencies, run_get_bind, run_bind, run_ofResult]
  cases Dependency.dependencies pass.session.disk (searchOf r) pass.sheet.path
      (pass.sheet.contents.getD "") with
  | error other => simp [eq_comm, and_comm]
  | ok found => simp [run_changeSheet]

/-- Where there is a compiler, making a request fails exactly if something lacks. -/
theorem exists_makeRequest_run_eq_error_iff {compiler : Compiler}
    (hcompiler : compilerOf pass = .ok compiler) :
    (∃ mid, (makeRequest settings p).run pass = (.error failure, mid)) ↔
      Lacks settings p pass failure := by
  constructor
  · rintro ⟨mid, h⟩
    have hrun := h
    rw [makeRequest] at h
    rcases error_or_exists_of_bind h with hload | ⟨_, loaded, hload, h⟩
    · obtain ⟨hfresh, htext, hthere⟩ := Sheet.load_eq_error_iff.1 (load_run_eq_error_iff.1 hload).2
      exact .source hfresh htext hthere
    · obtain ⟨text, records, hloaded, rfl⟩ := load_run_eq_ok_iff.1 hload
      rw [run_get_bind] at h
      split at h
      next =>
        rw [run_pure] at h
        cases h
      next hempty =>
        have hne : text ≠ "" := by simpa using hempty
        have hloads := loads_of_load hloaded hne
        obtain ⟨shared, kept, records', -, hrun'⟩ :=
          exists_makeRequest_run_of_loads settings p hloads hne hcompiler
        rw [hrun] at hrun'
        cases hgiven : resourcesOf settings pass.session with
        | error other =>
          simp only [hgiven] at hrun'
          obtain rfl := Except.error.inj (Prod.mk.inj hrun').1
          exact .resources hloads hne hgiven
        | ok given =>
          simp only [hgiven] at hrun'
          rcases error_or_exists_of_bind hrun'.symm with hextract | ⟨_, _, _, hpure⟩
          · have hfound := (extractDependencies_run_eq_error_iff.1 hextract).2
            exact .dependencies hloads hne hgiven hfound
          · rw [run_pure] at hpure
            cases hpure
  · intro h
    cases h with
    | source hfresh htext hthere =>
      have hload := Sheet.load_eq_error_iff.2 ⟨hfresh, htext, hthere⟩
      exact ⟨pass, run_bind_of_error (load_run_eq_error_iff.2 ⟨rfl, hload⟩) _⟩
    | resources hloads hne hgiven =>
      obtain ⟨shared, kept, records, -, hrun⟩ :=
        exists_makeRequest_run_of_loads settings p hloads hne hcompiler
      simp only [hgiven] at hrun
      exact ⟨_, hrun⟩
    | dependencies hloads hne hgiven hfound =>
      obtain ⟨shared, kept, records, -, hrun⟩ :=
        exists_makeRequest_run_of_loads settings p hloads hne hcompiler
      simp only [hgiven] at hrun
      rw [run_bind_of_error (extractDependencies_run_eq_error_iff.2 ⟨rfl, hfound⟩)] at hrun
      exact ⟨_, hrun⟩

/-- What is noted before the request is made does not matter to what lacks. -/
theorem lacks_noted_iff {modules : List String} {records : List LogRecord} :
    Lacks settings p (noted pass modules records) failure ↔ Lacks settings p pass failure := by
  constructor
  · intro h
    cases h with
    | source hfresh htext hthere => exact .source hfresh htext hthere
    | resources hloads hne hgiven => exact .resources hloads hne hgiven
    | dependencies hloads hne hgiven hfound => exact .dependencies hloads hne hgiven hfound
  · intro h
    cases h with
    | source hfresh htext hthere => exact .source hfresh htext hthere
    | resources hloads hne hgiven => exact .resources hloads hne hgiven
    | dependencies hloads hne hgiven hfound => exact .dependencies hloads hne hgiven hfound

variable [Cache.Entry.Reader]

/-- Why a pass fails whose compiler answers. -/
inductive Stops (settings : Settings) (p : Project) (pass : Pass) : Failure → Prop
  /-- The check of the entry breaks. -/
  | check {directory : String} {failure : Failure} (uses : usesCache settings p = true)
      (cache : p.cache = some directory)
      (breaks : Cache.Breaks pass.session.disk directory pass.sheet.path tag failure) :
      Stops settings p pass failure
  /-- There is no entry that may be used, and no request is made. -/
  | request {failure : Failure} (misses : Misses settings p pass.session.disk pass.sheet.path)
      (lacks : Lacks settings p pass failure) : Stops settings p pass failure
  /-- The stylesheet compiles, and its entry cannot be stored. -/
  | entry {directory text : String} {given : Option String} {found : List String} {output : Output}
      {failure : Failure} (cache : p.cache = some directory) (uses : usesCache settings p = true)
      (misses : Misses settings p pass.session.disk pass.sheet.path)
      (makes : Makes settings p pass text given found)
      (compiles : ∃ compiler, compilerOf pass = .ok compiler ∧
        (compiler.render pass.session.disk (requestFor settings p pass.sheet text given)).report =
          .ok ⟨none, some output⟩)
      (write_eq : Cache.writeEntry pass.session.disk directory
        ⟨Cache.formatVersion, pass.sheet.path, tag, output.css, output.map, found⟩ =
          .error failure) : Stops settings p pass failure

/-- Looking into the cache fails exactly if the check of the entry breaks. -/
theorem lookUp_run_eq_error_iff : (lookUp settings p).run pass = (.error failure, mid) ↔
    mid = pass ∧ usesCache settings p = true ∧ ∃ directory, p.cache = some directory ∧
      Cache.Breaks pass.session.disk directory pass.sheet.path tag failure := by
  unfold lookUp
  split
  next huses =>
    have hp : p.usesCache = true := (Bool.and_eq_true_iff.1 huses).2
    have hrestore : Cache.restore pass.session.disk p pass.sheet tag = .error failure ↔
        ∃ directory, p.cache = some directory ∧
          Cache.Breaks pass.session.disk directory pass.sheet.path tag failure :=
      Cache.restore_eq_error_iff.trans (and_iff_right hp)
    rw [← hrestore, consult, run_get_bind, run_bind, run_ofResult]
    cases Cache.restore pass.session.disk p pass.sheet tag with
    | error other => simp [huses, eq_comm, and_comm]
    | ok found =>
      simp only [run_changeSheet_bind, run_log_bind, run_pure, huses]
      simp
  next hunused => simp [run_pure, hunused]

/-- The part before the compile fails at the check of the entry, or where there is no entry that may
be used and something lacks. -/
theorem exists_prepare_run_eq_error_iff {compiler : Compiler}
    (hcompiler : compilerOf pass = .ok compiler) :
    (∃ mid, (prepare settings p).run pass = (.error failure, mid)) ↔
      (usesCache settings p = true ∧ ∃ directory, p.cache = some directory ∧
        Cache.Breaks pass.session.disk directory pass.sheet.path tag failure) ∨
      Misses settings p pass.session.disk pass.sheet.path ∧ Lacks settings p pass failure := by
  obtain ⟨modules, hmodules⟩ := needRuntime_eq pass.sheet runtimeModule
  have hnoted (modules : List String) (records : List LogRecord) :
      (∃ mid, (makeRequest settings p).run (noted pass modules records) = (.error failure, mid)) ↔
        Lacks settings p pass failure := by
    have hkept : compilerOf (noted pass modules records) = .ok compiler := hcompiler
    rw [exists_makeRequest_run_eq_error_iff hkept, lacks_noted_iff]
  constructor
  · rintro ⟨mid, h⟩
    obtain ⟨modules, -, hprepares⟩ := prepares_of_run h
    cases hprepares with
    | missed records hmiss hmake => exact .inr ⟨hmiss, (hnoted _ _).1 ⟨mid, hmake⟩⟩
    | refused _ huses hrestore => exact .inl ⟨huses, (Cache.restore_eq_error_iff.1 hrestore).2⟩
  · rintro (⟨huses, directory, hcache, hbreaks⟩ | ⟨hmiss, hlacks⟩)
    · have hlook : (lookUp settings p).run
          { pass with sheet := { pass.sheet with runtimeModules := modules } } =
            (.error failure, _) :=
        lookUp_run_eq_error_iff.2 ⟨rfl, huses, directory, hcache, hbreaks⟩
      rw [prepare, run_changeSheet_bind, hmodules]
      exact ⟨_, run_bind_of_error hlook _⟩
    · obtain ⟨modules', records, hprepare⟩ := exists_prepare_eq hmiss
      rw [hprepare]
      exact (hnoted _ _).2 hlacks

/-! ## The whole pass -/

/-- A pass whose compiler answers fails exactly if it stops. -/
theorem exists_transform_run_eq_error_iff {compiler : Compiler}
    (hcompiler : compilerOf pass = .ok compiler) (hanswers : compiler.kind.AnswersOnce) :
    (∃ pass', (transform settings p).run pass = (.error failure, pass')) ↔
      Stops settings p pass failure := by
  constructor
  · rintro ⟨pass', h⟩
    cases transform_run_eq_iff.1 h with
    | failed hprepare =>
      rcases (exists_prepare_run_eq_error_iff hcompiler).1 ⟨pass', hprepare⟩ with
        ⟨huses, directory, hcache, hbreaks⟩ | ⟨hmiss, hlacks⟩
      · exact .check huses hcache hbreaks
      · exact .request hmiss hlacks
    | unanswered hprepare hsubmit =>
      obtain ⟨-, text, given, found, -, -, hawaits⟩ := exists_makes_of_prepare hprepare
      obtain ⟨report, hreport, -⟩ :=
        exists_report_of_submit (hawaits.compiler.trans hcompiler) hanswers hsubmit
      cases hreport
    | answered hprepare hsubmit hsettle =>
      obtain ⟨hmiss, text, given, found, hmakes, rfl, hawaits⟩ := exists_makes_of_prepare hprepare
      obtain ⟨report, hanswer, hreport, hgives⟩ :=
        exists_report_of_submit (hawaits.compiler.trans hcompiler) hanswers hsubmit
      obtain rfl := Except.ok.inj hanswer
      obtain ⟨directory, output, rfl, hcache, huses, hwritten⟩ :=
        exists_of_settle_error hgives hsettle
      have hsent := submits_of_run hsubmit
      rw [hsent.disk, hawaits.disk, entryFor, hsent.sheet, hawaits.path, hawaits.dependencies,
        Option.getD_some] at hwritten
      rw [hawaits.disk] at hreport
      exact .entry hcache huses hmiss hmakes ⟨compiler, hcompiler, hreport⟩ hwritten
  · intro h
    cases h with
    | check huses hcache hbreaks =>
      obtain ⟨mid, hprepare⟩ := (exists_prepare_run_eq_error_iff hcompiler).2
        (.inl ⟨huses, _, hcache, hbreaks⟩)
      exact ⟨mid, transform_run_eq_iff.2 (.failed hprepare)⟩
    | request hmiss hlacks =>
      obtain ⟨mid, hprepare⟩ :=
        (exists_prepare_run_eq_error_iff hcompiler).2 (.inr ⟨hmiss, hlacks⟩)
      exact ⟨mid, transform_run_eq_iff.2 (.failed hprepare)⟩
    | @entry directory text given found output _ hcache huses hmiss hmakes hcompiles hwritten =>
      obtain ⟨mid, sent, hprepare, -, hsubmit, hdisk, -, hentry⟩ :=
        exists_runs_of_makes hmakes hmiss hcompiles
      have hsettle := settle_run hcache huses output sent
      rw [hentry, hdisk, hwritten] at hsettle
      exact ⟨_, transform_run_eq_iff.2 (.answered hprepare hsubmit hsettle)⟩

/-- A pass that fails leaves the disk as it is. -/
theorem disk_of_transform_error (h : (transform settings p).run pass = (.error failure, pass')) :
    pass'.session.disk = pass.session.disk := by
  rcases disk_or_caches_of_transform h with hkept | ⟨_, _, _, _, _, hcaches⟩
  · exact hkept
  · obtain ⟨done, hdone, -⟩ := exists_transform_run hcaches
    cases hdone.symm.trans h

/-- A pass that finds something wrong with the stylesheet leaves the disk as it is. -/
theorem disk_of_errors_ne {result : Except Failure Unit}
    (h : (transform settings p).run pass = (result, pass'))
    (hne : pass'.sheet.errors ≠ pass.sheet.errors) : pass'.session.disk = pass.session.disk := by
  rcases disk_or_caches_of_transform h with hkept | ⟨_, _, _, _, output, hcaches⟩
  · exact hkept
  · obtain ⟨mid, sent, hprepare, -, hsubmit, hdisk, herrors, hentry⟩ :=
      exists_runs_of_makes hcaches.makes hcaches.misses hcaches.compiles
    have hsettle := settle_run hcaches.cache hcaches.uses output sent
    rw [hentry, hdisk, hcaches.written] at hsettle
    have hrun := transform_run_eq_iff.2 (.answered hprepare hsubmit hsettle)
    have hlast := (Prod.mk.inj (h.symm.trans hrun)).2
    have hkept : pass'.sheet.errors = pass.sheet.errors := by
      rw [hlast]
      exact herrors
    exact absurd hkept hne

end Transform

end StyleBundle
