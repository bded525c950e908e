import StyleBundle.Proofs.Transform.Request

/-!
# What a pass does

A pass changes the disk in one way only: where it compiles a stylesheet, it may store an entry with
the dependencies that the stylesheet's text has on that disk.
-/

namespace StyleBundle.Transform

variable [Limits] [Cache.Entry.Reader]

variable {pass pass' : Pass} {settings : Settings} {p : Project} {directory text : String}
  {given : Option String} {found : List String} {output : Output} {d' : Disk}

/-! ## The course of a pass -/

/-- The course of a pass: it fails before its request, there is no request to make, the request is
not answered, or the pass goes on with the report. -/
inductive Course (settings : Settings) (p : Project) (pass : Pass) :
    Except Failure Unit → Pass → Prop
  /-- The pass fails before its request. -/
  | failed {failure : Failure} {mid : Pass}
      (prepare_eq : (prepare settings p).run pass = (.error failure, mid)) :
      Course settings p pass (.error failure) mid
  /-- There is no request to make. -/
  | unasked {mid : Pass} (prepare_eq : (prepare settings p).run pass = (.ok none, mid)) :
      Course settings p pass (.ok ()) mid
  /-- The request is not answered. -/
  | unanswered {request : Request} {failure : Failure} {mid sent : Pass}
      (prepare_eq : (prepare settings p).run pass = (.ok (some request), mid))
      (submit_eq : (submit request).run mid = (.error failure, sent)) :
      Course settings p pass (.error failure) sent
  /-- The pass goes on with the report. -/
  | answered {request : Request} {report : Report} {result : Except Failure Unit}
      {mid sent pass' : Pass}
      (prepare_eq : (prepare settings p).run pass = (.ok (some request), mid))
      (submit_eq : (submit request).run mid = (.ok report, sent))
      (settle_eq : (settle settings p report).run sent = (result, pass')) :
      Course settings p pass result pass'

/-- Running a pass is following its course. -/
theorem transform_run_eq_iff {result : Except Failure Unit} :
    (transform settings p).run pass = (result, pass') ↔ Course settings p pass result pass' := by
  constructor
  · intro h
    rw [transform, run_bind] at h
    cases hprepare : (prepare settings p).run pass with
    | mk made mid =>
      rw [hprepare] at h
      rcases made with failure | _ | request
      · obtain ⟨rfl, rfl⟩ := Prod.mk.inj h
        exact .failed hprepare
      · obtain ⟨rfl, rfl⟩ := Prod.mk.inj h
        exact .unasked hprepare
      · simp only [run_bind] at h
        cases hsubmit : (submit request).run mid with
        | mk answer sent =>
          rw [hsubmit] at h
          cases answer with
          | error failure =>
            obtain ⟨rfl, rfl⟩ := Prod.mk.inj h
            exact .unanswered hprepare hsubmit
          | ok report => exact .answered hprepare hsubmit h
  · intro h
    cases h with
    | failed hprepare => exact run_bind_of_error hprepare _
    | unasked hprepare => exact run_bind_of_ok hprepare _
    | unanswered hprepare hsubmit =>
      exact (run_bind_of_ok hprepare _).trans (run_bind_of_error hsubmit _)
    | answered hprepare hsubmit hsettle =>
      exact (run_bind_of_ok hprepare _).trans ((run_bind_of_ok hsubmit _).trans hsettle)

/-! ## Compiling and storing -/

/-- A pass that compiles its stylesheet and stores the entry: the cache has none that may be used,
there is a request, its compiler makes compiled text of it, and the disk takes the entry. -/
structure Caches (settings : Settings) (p : Project) (pass : Pass) (directory text : String)
    (given : Option String) (found : List String) (output : Output) (d' : Disk) : Prop where
  /-- The project has a cache. -/
  cache : p.cache = some directory
  /-- The settings use it. -/
  uses : usesCache settings p = true
  /-- The cache has no entry that may be used. -/
  misses : Misses settings p pass.session.disk pass.sheet.path
  /-- There is a request. -/
  makes : Makes settings p pass text given found
  /-- The request compiles. -/
  compiles : ∃ compiler, compilerOf pass = .ok compiler ∧
    (compiler.render pass.session.disk (requestFor settings p pass.sheet text given)).report =
      .ok ⟨none, some output⟩
  /-- The disk takes the entry. -/
  written : Cache.writeEntry pass.session.disk directory
    ⟨Cache.formatVersion, pass.sheet.path, tag, output.css, output.map, found⟩ = .ok d'

/-- A pass that gets compiled text for its request, up to the store. -/
theorem exists_runs_of_makes (hmakes : Makes settings p pass text given found)
    (hmiss : Misses settings p pass.session.disk pass.sheet.path)
    (hcompiles : ∃ compiler, compilerOf pass = .ok compiler ∧
      (compiler.render pass.session.disk (requestFor settings p pass.sheet text given)).report =
        .ok ⟨none, some output⟩) :
    ∃ mid sent, (prepare settings p).run pass =
        (.ok (some (requestFor settings p pass.sheet text given)), mid) ∧
      Awaits pass mid text found ∧
      (submit (requestFor settings p pass.sheet text given)).run mid =
        (.ok ⟨none, some output⟩, sent) ∧ sent.session.disk = pass.session.disk ∧
      sent.sheet.errors = pass.sheet.errors ∧ entryFor sent.sheet output =
        ⟨Cache.formatVersion, pass.sheet.path, tag, output.css, output.map, found⟩ := by
  obtain ⟨mid, hprepare, hawaits⟩ := exists_prepare_run hmakes hmiss
  obtain ⟨compiler, hcompiler, hreport⟩ := hcompiles
  cases hsubmit : (submit (requestFor settings p pass.sheet text given)).run mid with
  | mk answer sent =>
    have hsent := submits_of_run hsubmit
    obtain rfl : answer = .ok ⟨none, some output⟩ := by
      rw [hsent.answer_eq, hawaits.compiler, hcompiler, hawaits.disk]
      exact hreport
    refine ⟨mid, sent, hprepare, hawaits, hsubmit, hsent.disk.trans hawaits.disk, ?_, ?_⟩
    · rw [hsent.sheet, hawaits.errors]
    · rw [entryFor, hsent.sheet, hawaits.path, hawaits.dependencies, Option.getD_some]

/-- A pass that compiles and stores, part by part. -/
theorem Caches.exists_runs (h : Caches settings p pass directory text given found output d') :
    ∃ mid sent, (prepare settings p).run pass =
        (.ok (some (requestFor settings p pass.sheet text given)), mid) ∧
      Awaits pass mid text found ∧
      (submit (requestFor settings p pass.sheet text given)).run mid =
        (.ok ⟨none, some output⟩, sent) ∧
      (settle settings p ⟨none, some output⟩).run sent = (.ok (), compiled sent output d') := by
  obtain ⟨mid, sent, hprepare, hawaits, hsubmit, hdisk, -, hentry⟩ :=
    exists_runs_of_makes h.makes h.misses h.compiles
  refine ⟨mid, sent, hprepare, hawaits, hsubmit, ?_⟩
  rw [settle_run h.cache h.uses, hentry, hdisk, h.written]

/-- A pass that compiles and stores succeeds, with the compiled text in the stylesheet. -/
theorem exists_transform_run
    (h : Caches settings p pass directory text given found output d') : ∃ pass',
    (transform settings p).run pass = (.ok (), pass') ∧ pass'.session.disk = d' ∧
      pass'.sheet.contents = some output.css ∧ pass'.sheet.sourceMap = output.map := by
  obtain ⟨mid, sent, hprepare, -, hsubmit, hsettle⟩ := h.exists_runs
  exact ⟨compiled sent output d', transform_run_eq_iff.2 (.answered hprepare hsubmit hsettle), rfl,
    rfl, rfl⟩

/-- The text and the map that a report leaves in a stylesheet, whatever becomes of the entry. -/
def leftBy (sheet : Sheet) : Except Failure Report → Option String × Option String
  | .ok ⟨none, some output⟩ => (some output.css, output.map)
  | .ok ⟨some _, _⟩ => (some "", sheet.sourceMap)
  | .ok ⟨none, none⟩ | .error _ => (sheet.contents, sheet.sourceMap)

/-- The text and the map that a pass leaves. -/
def outcomeOf (settings : Settings) (p : Project) (pass : Pass) : Option String × Option String :=
  let sheet := ((transform settings p).run pass).2.sheet
  (sheet.contents, sheet.sourceMap)

/-- A pass that makes a request leaves what the report leaves. -/
theorem outcomeOf_of_prepare {request : Request} {mid : Pass} {compiler : Compiler}
    (hprepare : (prepare settings p).run pass = (.ok (some request), mid))
    (hcompiler : compilerOf mid = .ok compiler) : outcomeOf settings p pass =
      leftBy mid.sheet (compiler.render mid.session.disk request).report := by
  cases hsubmit : (submit request).run mid with
  | mk answer sent =>
    have hsent := submits_of_run hsubmit
    have hanswer : (compiler.render mid.session.disk request).report = answer := by
      rw [hsent.answer_eq, hcompiler]
      rfl
    rw [outcomeOf, hanswer, ← hsent.sheet]
    cases answer with
    | error failure =>
      rw [transform_run_eq_iff.2 (.unanswered hprepare hsubmit)]
      rfl
    | ok report =>
      cases hsettle : (settle settings p report).run sent with
      | mk result pass' =>
        rw [transform_run_eq_iff.2 (.answered hprepare hsubmit hsettle)]
        cases settles_of_run hsettle <;> rfl

/-- A pass that may use an entry restores the stylesheet from it and makes no request: nothing else
is changed but the log. -/
theorem exists_prepare_run_of_isValid {entry : Cache.Entry} {records : List LogRecord}
    (hcache : p.cache = some directory) (huses : usesCache settings p = true)
    (hvalid : Cache.isValid pass.session.disk directory pass.sheet.path tag = .ok (true, records))
    (hread : Cache.readEntry pass.session.disk directory pass.sheet.path tag = .ok entry) :
    ∃ modules records', (prepare settings p).run pass = (.ok none,
      { pass with
        sheet :=
          { Cache.restored pass.sheet entry with runtimeModules := modules, consulted := true }
        records := records' }) := by
  obtain ⟨modules, hmodules⟩ := needRuntime_eq pass.sheet runtimeModule
  let first : Pass := { pass with sheet := { pass.sheet with runtimeModules := modules } }
  have hp : p.usesCache = true := (Bool.and_eq_true_iff.1 huses).2
  have hrestore : Cache.restore first.session.disk p first.sheet tag =
      .ok (true, Cache.restored first.sheet entry, records) := by
    have hvalid' : Cache.isValid first.session.disk directory first.sheet.path tag =
      .ok (true, records) := hvalid
    have hread' : Cache.readEntry first.session.disk directory first.sheet.path tag =
      .ok entry := hread
    simp only [Cache.restore, hp, hcache, hvalid', hread']
  have hlook : (lookUp settings p).run first = (.ok true,
      { first with
        sheet := Cache.restored first.sheet entry
        records := first.records ++ records }) := by
    rw [lookUp, if_pos huses]
    exact consult_run_eq_ok_iff.2 ⟨_, _, hrestore, rfl⟩
  refine ⟨modules, first.records ++ records ++ [hitRecord pass.sheet.path], ?_⟩
  rw [prepare, run_changeSheet_bind, hmodules, run_bind_of_ok hlook, run_changeSheet_bind,
    if_pos rfl]
  rfl

/-- An entry that may be used leaves its text and its map. -/
theorem outcomeOf_of_isValid {entry : Cache.Entry} {records : List LogRecord}
    (hcache : p.cache = some directory) (huses : usesCache settings p = true)
    (hvalid : Cache.isValid pass.session.disk directory pass.sheet.path tag = .ok (true, records))
    (hread : Cache.readEntry pass.session.disk directory pass.sheet.path tag = .ok entry) :
    outcomeOf settings p pass = (some entry.contents, entry.sourceMap) := by
  obtain ⟨modules, records', hprepare⟩ :=
    exists_prepare_run_of_isValid hcache huses hvalid hread
  rw [outcomeOf, transform, run_bind_of_ok hprepare]
  rfl

/-- A pass whose parts make a request, compile it and settle the compiled text, where the cache is
used, compiles and stores. -/
theorem exists_caches_of_runs {request : Request} {mid sent : Pass}
    (hcache : p.cache = some directory) (huses : usesCache settings p = true)
    (hprepare : (prepare settings p).run pass = (.ok (some request), mid))
    (hsubmit : (submit request).run mid = (.ok ⟨none, some output⟩, sent))
    (hsettle : (settle settings p ⟨none, some output⟩).run sent = (.ok (), pass')) :
    ∃ text given found, request = requestFor settings p pass.sheet text given ∧
      Awaits pass mid text found ∧
      Caches settings p pass directory text given found output pass'.session.disk := by
  obtain ⟨hmiss, text, given, found, hmakes, rfl, hawaits⟩ := exists_makes_of_prepare hprepare
  have hsent := submits_of_run hsubmit
  obtain ⟨compiler, hcompiler⟩ := hmakes.compiler
  have hreport := hsent.answer_eq.symm
  rw [hawaits.compiler, hcompiler, hawaits.disk] at hreport
  have hwritten := writeEntry_of_settle hcache huses hsettle
  rw [hsent.disk, hawaits.disk, entryFor, hsent.sheet, hawaits.path, hawaits.dependencies,
    Option.getD_some] at hwritten
  exact ⟨text, given, found, rfl, hawaits, hcache, huses, hmiss, hmakes,
    ⟨compiler, hcompiler, hreport⟩, hwritten⟩

/-- A pass keeps the disk, or it compiles its stylesheet and stores the entry. -/
theorem disk_or_caches_of_transform {result : Except Failure Unit}
    (h : (transform settings p).run pass = (result, pass')) :
    pass'.session.disk = pass.session.disk ∨ ∃ directory text given found output,
      Caches settings p pass directory text given found output pass'.session.disk := by
  cases transform_run_eq_iff.1 h with
  | failed hprepare => exact .inl (disk_of_prepare hprepare)
  | unasked hprepare => exact .inl (disk_of_prepare hprepare)
  | unanswered hprepare hsubmit =>
    exact .inl ((submits_of_run hsubmit).disk.trans (disk_of_prepare hprepare))
  | answered hprepare hsubmit hsettle =>
    -- Only the last part may write, and it is reached with a report.
    rcases disk_or_ok_of_settle hsettle with hsettled | ⟨rfl, ⟨output, rfl⟩, directory, hcache,
      huses⟩
    · have hsent := (submits_of_run hsubmit).disk.trans (disk_of_prepare hprepare)
      exact .inl (hsettled.trans hsent)
    · obtain ⟨text, given, found, -, -, hcaches⟩ :=
        exists_caches_of_runs hcache huses hprepare hsubmit hsettle
      exact .inr ⟨directory, text, given, found, output, hcaches⟩

/-! ## Entries of sources -/

/-- An entry that is stored for a source: its text on the disk has the dependencies, and the other
disk is the one after the write. -/
structure Stores (settings : Settings) (directory : String) (d : Disk) (entry : Cache.Entry)
    (d' : Disk) : Prop where
  /-- The source holds text with these dependencies. -/
  dependencies : ∃ text, d.readText entry.path = .ok text ∧
    Dependency.dependencies d (searchFor settings entry.path) entry.path text =
      .ok entry.dependencies
  /-- The entry is under the tag of the transform. -/
  tag : entry.tag = Transform.tag
  /-- The entry has the version that is accepted. -/
  version : entry.version = Cache.formatVersion
  /-- The entry is written. -/
  written : Cache.writeEntry d directory entry = .ok d'

/-- A pass over a fresh stylesheet changes nothing on the disk, or it stores an entry for the
source. -/
theorem transform_ok (himporting : settings.importing = .off) (hfresh : pass.sheet.contents = none)
    (h : (transform settings p).run pass = (.ok (), pass')) :
    pass'.session.disk = pass.session.disk ∨ ∃ directory entry, p.cache = some directory ∧
      usesCache settings p = true ∧ entry.path = pass.sheet.path ∧
      Stores settings directory pass.session.disk entry pass'.session.disk := by
  rcases disk_or_caches_of_transform h with hkept | ⟨directory, text, given, found, output, hcaches⟩
  · exact .inl hkept
  · have htext : pass.session.disk.readText pass.sheet.path = .ok text := by
      rcases hcaches.makes.loads with hloaded | ⟨-, htext⟩
      · rw [hfresh] at hloaded
        cases hloaded
      · exact htext
    have hfound := hcaches.makes.dependencies
    rw [searchOf_requestFor himporting] at hfound
    let entry : Cache.Entry :=
      ⟨Cache.formatVersion, pass.sheet.path, tag, output.css, output.map, found⟩
    have hstores : Stores settings directory pass.session.disk entry pass'.session.disk :=
      ⟨⟨text, htext, hfound⟩, rfl, rfl, hcaches.written⟩
    exact .inr ⟨directory, entry, hcaches.cache, hcaches.uses, rfl, hstores⟩

/-! ## Sources that cannot be read -/

/-- A pass over a fresh stylesheet whose source is gone leaves it empty. -/
theorem exists_transform_run_of_missing {path : String} (hfresh : pass.sheet.contents = none)
    (hmiss : Misses settings p pass.session.disk pass.sheet.path)
    (hgone : pass.session.disk.readText pass.sheet.path = .error (.disk (.refused .missing path))) :
    ∃ pass', (transform settings p).run pass = (.ok (), pass') ∧
      pass'.sheet.contents = some "" := by
  obtain ⟨modules, records, hprepare⟩ := exists_prepare_eq hmiss
  rw [transform, run_bind, hprepare, makeRequest, load, bind_assoc, run_get_bind]
  simp only [noted, Sheet.load, hfresh, hgone]
  exact ⟨_, rfl, rfl⟩

/-- A pass over a fresh stylesheet whose source is there fails where the source cannot be read. -/
theorem exists_transform_run_of_refused {cause : Disk.Cause} {path : String}
    (hfresh : pass.sheet.contents = none)
    (hmiss : Misses settings p pass.session.disk pass.sheet.path)
    (hfails : pass.session.disk.readText pass.sheet.path = .error (.disk (.refused cause path)))
    (hthere : cause ≠ .missing) :
    ∃ pass', (transform settings p).run pass = (.error (.disk (.refused cause path)), pass') := by
  obtain ⟨modules, records, hprepare⟩ := exists_prepare_eq hmiss
  rw [transform, run_bind, hprepare, makeRequest, load, bind_assoc, run_get_bind]
  cases cause with
  | missing => exact absurd rfl hthere
  | _ =>
    simp only [noted, Sheet.load, hfresh, hfails]
    exact ⟨_, rfl⟩

end StyleBundle.Transform
