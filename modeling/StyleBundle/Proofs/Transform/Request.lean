import StyleBundle.Proofs.Transform.Part

/-!
# The request of a pass

Before it waits, a pass makes its request from a text, the text of the resources and the settings,
and keeps the dependencies that the text has. Whether there is a request, and which one it is, is
said here without the parts that lead to it, so that passes on different disks can be compared.
-/

namespace StyleBundle.Transform

variable {pass mid : Pass} {settings : Settings} {p : Project} {text : String}
  {given : Option String} {found : List String} {request : Request}

/-- What a pass has become when its request is made. -/
structure Awaits (pass mid : Pass) (text : String) (found : List String) : Prop where
  /-- The disk is the same. -/
  disk : mid.session.disk = pass.session.disk
  /-- The compiler is the same. -/
  compiler : compilerOf mid = compilerOf pass
  /-- The stylesheet is that of the same source. -/
  path : mid.sheet.path = pass.sheet.path
  /-- The stylesheet holds its text. -/
  contents : mid.sheet.contents = some text
  /-- The stylesheet holds the dependencies. -/
  dependencies : mid.sheet.styleDependencies = some found
  /-- The stylesheet has the same map. -/
  sourceMap : mid.sheet.sourceMap = pass.sheet.sourceMap
  /-- The stylesheet has the same diagnostics. -/
  errors : mid.sheet.errors = pass.sheet.errors

/-- A pass that has noted its runtime modules and has looked into the cache. -/
def noted (pass : Pass) (modules : List String) (records : List LogRecord) : Pass :=
  { pass with
    sheet := { pass.sheet with runtimeModules := modules, consulted := true }
    records := records }

/-- What is noted before the request is made does not matter to what the pass has become. -/
theorem Awaits.of_noted {modules : List String} {records : List LogRecord}
    (h : Awaits (noted pass modules records) mid text found) : Awaits pass mid text found :=
  ⟨h.disk, h.compiler, h.path, h.contents, h.dependencies, h.sourceMap, h.errors⟩

/-- Nothing but the runtime modules is noted before the cache is looked into. -/
theorem needRuntime_eq (sheet : Sheet) (name : String) :
    ∃ modules, sheet.needRuntime name = { sheet with runtimeModules := modules } := by
  unfold Sheet.needRuntime
  split
  · exact ⟨sheet.runtimeModules, rfl⟩
  · exact ⟨_, rfl⟩

/-- An optional override of anything but the text keeps the text. -/
theorem data_foldl_override {α : Type} (override : α → Settings.Override)
    (hother : ∀ value (r : Request), (r.override (override value)).data = r.data)
    (value : Option α) (r : Request) :
    ((value.map override).toList.foldl Request.override r).data = r.data := by
  cases value with
  | none => rfl
  | some value => exact hother value r

variable [Limits]

/-- The request for a stylesheet with a text, behind the text of the resources. -/
def requestFor (settings : Settings) (p : Project) (sheet : Sheet) (text : String)
    (given : Option String) : Request :=
  Request.build p { sheet with contents := some text } settings
    (Request.projectMacros p settings.macros) given

/-- A stylesheet that has a text, or has none yet and finds it in its source. -/
def Loads (d : Disk) (sheet : Sheet) (text : String) : Prop :=
  sheet.contents = some text ∨ sheet.contents = none ∧ d.readText sheet.path = .ok text

/-- What a request is made of: the text of the stylesheet, the text of the resources, and the
dependencies that the stylesheet's text has. -/
structure Makes (settings : Settings) (p : Project) (pass : Pass) (text : String)
    (given : Option String) (found : List String) : Prop where
  /-- The stylesheet has the text, or its source holds it. -/
  loads : Loads pass.session.disk pass.sheet text
  /-- There is something to compile. -/
  nonempty : text ≠ ""
  /-- There is a compiler. -/
  compiler : ∃ compiler, compilerOf pass = .ok compiler
  /-- The resources have been read or can be read. -/
  resources : resourcesOf settings pass.session = .ok given
  /-- The dependencies can be extracted. -/
  dependencies : Dependency.dependencies pass.session.disk
    (searchOf (requestFor settings p pass.sheet text given)) pass.sheet.path text = .ok found

/-- Nor does it matter to what the request is made of. -/
theorem makes_noted_iff {modules : List String} {records : List LogRecord} :
    Makes settings p (noted pass modules records) text given found ↔
      Makes settings p pass text given found :=
  ⟨fun h => ⟨h.loads, h.nonempty, h.compiler, h.resources, h.dependencies⟩,
    fun h => ⟨h.loads, h.nonempty, h.compiler, h.resources, h.dependencies⟩⟩

/-! ## Making the request -/

/-- A stylesheet with a text is loaded with it. -/
theorem Loads.exists_load_eq {d : Disk} {sheet : Sheet} (h : Loads d sheet text) :
    ∃ records, sheet.load d = .ok ({ sheet with contents := some text }, records) := by
  unfold Sheet.load
  rcases h with hloaded | ⟨hfresh, htext⟩
  · exact ⟨[], by rw [if_pos (by simp [hloaded]), ← hloaded]⟩
  · exact ⟨[], by rw [if_neg (by simp [hfresh]), htext]⟩

/-- What a stylesheet is loaded with is its own text or that of its source, unless it is empty. -/
theorem loads_of_load {d : Disk} {sheet : Sheet} {records : List LogRecord}
    (h : sheet.load d = .ok ({ sheet with contents := some text }, records)) (hne : text ≠ "") :
    Loads d sheet text := by
  unfold Sheet.load at h
  split at h
  next =>
    have hsame := (Prod.mk.inj (Except.ok.inj h)).1
    exact .inl (congrArg Sheet.contents hsame)
  next hnone =>
    have hfresh : sheet.contents = none := by simpa using hnone
    split at h
    next other hother =>
      have hsame := (Prod.mk.inj (Except.ok.inj h)).1
      obtain rfl : other = text := Option.some.inj (congrArg Sheet.contents hsame)
      exact .inr ⟨hfresh, hother⟩
    next =>
      have hsame := (Prod.mk.inj (Except.ok.inj h)).1
      exact absurd (Option.some.inj (congrArg Sheet.contents hsame)).symm hne
    · cases h

/-- The resources are what has been read of them, or else what the disk holds. -/
theorem resourcesOf_congr {s s' : Session} (hdisk : s'.disk = s.disk)
    (hresources : s'.resources = s.resources) :
    resourcesOf settings s' = resourcesOf settings s := by
  simp only [resourcesOf, Session.loadResources, hdisk, hresources]
  split
  · rfl
  · split
    · rfl
    · split <;> rfl

/-- The compiled text is the one that the settings hold, or else the stylesheet's own behind that of
the resources. -/
theorem data_requestFor (settings : Settings) (p : Project) (sheet : Sheet) (text : String)
    (given : Option String) :
    (requestFor settings p sheet text given).data =
      settings.data.getD (given.getD "" ++ text) := by
  simp only [requestFor, Request.build, Settings.overrides, List.foldl_append, Option.getD_some]
  rw [data_foldl_override _ (fun _ _ => rfl), data_foldl_override _ (fun _ _ => rfl),
    data_foldl_override _ (fun _ _ => rfl), data_foldl_override _ (fun _ _ => rfl),
    data_foldl_override _ (fun _ _ => rfl), data_foldl_override _ (fun _ _ => rfl)]
  cases settings.data with
  | none => rfl
  | some data => rfl

/-- The search for the dependencies of a source, where imports are not hooked. -/
def searchFor (settings : Settings) (path : String) : Dependency.Search where
  paths := settings.includePaths ++ [Path.parent path]
  partials := true
  hook := none
  extensions := ["css", if settings.indentedSyntax then "sass" else "scss"]

/-- The search of a request depends on the settings and the source's path only. -/
theorem searchOf_requestFor (himporting : settings.importing = .off) (p : Project) (sheet : Sheet)
    (text : String) (given : Option String) :
    searchOf (requestFor settings p sheet text given) = searchFor settings sheet.path := by
  simp only [searchOf, requestFor, Request.build, Request.hookOf, himporting, searchFor,
    Sheet.directory]

/-- Where there is a compiler, a source that is loaded with some text leads to the resources and
then to the dependencies. -/
theorem exists_makeRequest_run_of_loads (settings : Settings) (p : Project) {compiler : Compiler}
    (hloads : Loads pass.session.disk pass.sheet text) (hne : text ≠ "")
    (hcompiler : compilerOf pass = .ok compiler) : ∃ shared kept records,
      compilerOf { pass with session := { pass.session with compiler := shared } } =
        .ok compiler ∧
      (makeRequest settings p).run pass =
        match resourcesOf settings pass.session with
        | .error failure => (.error failure,
          { pass with
            session := { pass.session with compiler := shared, resources := kept }
            sheet := { pass.sheet with contents := some text }
            records := pass.records ++ records })
        | .ok given => Part.run
          (extractDependencies (requestFor settings p pass.sheet text given) >>= fun _ =>
            pure (some (requestFor settings p pass.sheet text given)))
          { pass with
            session := { pass.session with compiler := shared, resources := kept }
            sheet := { pass.sheet with contents := some text }
            records := pass.records ++ records } := by
  obtain ⟨records, hload⟩ := hloads.exists_load_eq
  let loaded : Pass :=
    { pass with
      sheet := { pass.sheet with contents := some text }
      records := pass.records ++ records }
  have hloaded : load.run pass = (.ok (), loaded) :=
    load_run_eq_ok_iff.2 ⟨text, records, hload, rfl⟩
  have hloadedCompiler : compilerOf loaded = .ok compiler := hcompiler
  obtain ⟨shared, hready, hkept⟩ := exists_requireCompiler_run hloadedCompiler
  obtain ⟨kept, hfurnished⟩ := exists_resources_run settings
    { loaded with session := { loaded.session with compiler := shared } }
  have hgiven : resourcesOf settings { loaded.session with compiler := shared } =
      resourcesOf settings pass.session := resourcesOf_congr rfl rfl
  rw [hgiven] at hfurnished
  refine ⟨shared, kept, records, hkept, ?_⟩
  rw [makeRequest, run_bind_of_ok hloaded, run_get_bind, if_neg (by simpa [loaded] using hne),
    run_bind_of_ok hready, run_bind, hfurnished]
  cases resourcesOf settings pass.session with
  | error failure => rfl
  | ok given =>
    simp only [run_get_bind]
    rfl

/-- A request is made of what there is for it. -/
theorem exists_makeRequest_run (h : Makes settings p pass text given found) : ∃ mid,
    (makeRequest settings p).run pass =
      (.ok (some (requestFor settings p pass.sheet text given)), mid) ∧
    Awaits pass mid text found := by
  obtain ⟨compiler, hcompiler⟩ := h.compiler
  obtain ⟨shared, kept, records, hkept, hrun⟩ :=
    exists_makeRequest_run_of_loads settings p h.loads h.nonempty hcompiler
  let furnished : Pass :=
    { pass with
      session := { pass.session with compiler := shared, resources := kept }
      sheet := { pass.sheet with contents := some text }
      records := pass.records ++ records }
  let extracted : Pass :=
    { furnished with sheet := { furnished.sheet with styleDependencies := some found } }
  have hextract : (extractDependencies
      (requestFor settings p pass.sheet text given)).run furnished = (.ok (), extracted) :=
    extractDependencies_run_eq_ok_iff.2 ⟨found, h.dependencies, rfl⟩
  simp only [h.resources] at hrun
  refine ⟨extracted, hrun.trans (run_bind_of_ok hextract _), rfl, ?_, rfl, rfl, rfl, rfl, rfl⟩
  rw [hcompiler, ← hkept]
  rfl

/-- Whatever request is made, there was what it is made of. -/
theorem exists_makes_of_makeRequest
    (h : (makeRequest settings p).run pass = (.ok (some request), mid)) : ∃ text given found,
    Makes settings p pass text given found ∧
      request = requestFor settings p pass.sheet text given ∧ Awaits pass mid text found := by
  have hrun := h
  rw [makeRequest] at h
  obtain ⟨_, loaded, hloaded, h⟩ := exists_run_of_bind h
  obtain ⟨text, records, hload, rfl⟩ := load_run_eq_ok_iff.1 hloaded
  rw [run_get_bind] at h
  split at h
  next =>
    rw [run_pure] at h
    cases h
  next hne =>
    obtain ⟨_, ready, hready, h⟩ := exists_run_of_bind h
    obtain ⟨compiler, hcompiler⟩ := exists_compilerOf_of_requireCompiler hready
    obtain ⟨shared, hready', -⟩ := exists_requireCompiler_run hcompiler
    obtain ⟨-, rfl⟩ := Prod.mk.inj (hready.symm.trans hready')
    obtain ⟨given, furnished, hfurnished, h⟩ := exists_run_of_bind h
    obtain ⟨kept, hfurnished'⟩ := exists_resources_run settings
      { pass with
        session := { pass.session with compiler := shared }
        sheet := { pass.sheet with contents := some text }
        records := pass.records ++ records }
    obtain ⟨hgiven, rfl⟩ := Prod.mk.inj (hfurnished.symm.trans hfurnished')
    simp only [run_get_bind] at h
    obtain ⟨_, extracted, hextract, -⟩ := exists_run_of_bind h
    obtain ⟨found, hfound, -⟩ := extractDependencies_run_eq_ok_iff.1 hextract
    have hnonempty : text ≠ "" := by simpa using hne
    have hmakes : Makes settings p pass text given found := by
      refine ⟨loads_of_load hload hnonempty, hnonempty, ⟨compiler, hcompiler⟩, ?_, hfound⟩
      rw [hgiven]
      exact resourcesOf_congr rfl rfl
    -- Running all of it again from these facts says what the pass has become.
    obtain ⟨mid', hrun', hawaits⟩ := exists_makeRequest_run hmakes
    obtain ⟨hrequest, rfl⟩ := Prod.mk.inj (hrun.symm.trans hrun')
    exact ⟨text, given, found, hmakes, Option.some.inj (Except.ok.inj hrequest), hawaits⟩

/-! ## The part before the compile -/

variable [Cache.Entry.Reader]

/-- The cache has no entry of a source that a pass may use. -/
def Misses (settings : Settings) (p : Project) (d : Disk) (path : String) : Prop :=
  usesCache settings p = true → ∀ directory, p.cache = some directory →
    ∃ records, Cache.isValid d directory path tag = .ok (false, records)

/-- Where the cache has no entry for the stylesheet, looking there changes nothing but the log. -/
theorem exists_lookUp_run (pass : Pass)
    (h : Misses settings p pass.session.disk pass.sheet.path) : ∃ records,
    (lookUp settings p).run pass =
      (.ok false, { pass with records := pass.records ++ records }) := by
  unfold lookUp
  split
  next huses =>
    have hp : p.usesCache = true := (Bool.and_eq_true_iff.1 huses).2
    cases hcache : p.cache with
    | none => exact ⟨[], consult_run_eq_ok_iff.2
        ⟨pass.sheet, [], by simp only [Cache.restore, hp, hcache], rfl⟩⟩
    | some directory =>
      obtain ⟨records, hinvalid⟩ := h huses directory hcache
      exact ⟨records, consult_run_eq_ok_iff.2
        ⟨pass.sheet, records, by simp only [Cache.restore, hp, hcache, hinvalid], rfl⟩⟩
  next => exact ⟨[], by rw [run_pure, List.append_nil]⟩

/-- Where the cache has no entry that may be used, a pass goes on to make its request. -/
theorem exists_prepare_eq (hmiss : Misses settings p pass.session.disk pass.sheet.path) :
    ∃ modules records, (prepare settings p).run pass =
      (makeRequest settings p).run (noted pass modules (pass.records ++ records)) := by
  obtain ⟨modules, hmodules⟩ := needRuntime_eq pass.sheet runtimeModule
  let first : Pass := { pass with sheet := { pass.sheet with runtimeModules := modules } }
  obtain ⟨records, hlook⟩ := exists_lookUp_run first hmiss
  refine ⟨modules, records, ?_⟩
  rw [prepare, run_changeSheet_bind, hmodules, run_bind_of_ok hlook, run_changeSheet_bind,
    if_neg (by simp)]
  rfl

/-- The cache has an entry of the source that a pass may use. -/
def Hits (settings : Settings) (p : Project) (pass : Pass) (entry : Cache.Entry) : Prop :=
  usesCache settings p = true ∧ ∃ directory, p.cache = some directory ∧
    (∃ records, Cache.isValid pass.session.disk directory pass.sheet.path tag =
      .ok (true, records)) ∧
    Cache.readEntry pass.session.disk directory pass.sheet.path tag = .ok entry

/-- What the part before the compile may come to, with the runtime modules that it notes. -/
inductive Prepares (settings : Settings) (p : Project) (pass : Pass) (modules : List String) :
    Except Failure (Option Request) → Pass → Prop
  /-- The stylesheet is restored from an entry that may be used. -/
  | restored (entry : Cache.Entry) (records : List LogRecord) (hits : Hits settings p pass entry) :
      Prepares settings p pass modules (.ok none)
        (noted { pass with sheet := Cache.restored pass.sheet entry } modules records)
  /-- There is no such entry, and a request is to be made. -/
  | missed {made : Except Failure (Option Request)} {mid : Pass} (records : List LogRecord)
      (misses : Misses settings p pass.session.disk pass.sheet.path)
      (makes : (makeRequest settings p).run (noted pass modules (pass.records ++ records)) =
        (made, mid)) : Prepares settings p pass modules made mid
  /-- The look into the cache fails. -/
  | refused (failure : Failure) (uses : usesCache settings p = true)
      (fails : Cache.restore pass.session.disk p { pass.sheet with runtimeModules := modules } tag =
        .error failure) :
      Prepares settings p pass modules (.error failure)
        { pass with sheet := { pass.sheet with runtimeModules := modules } }

/-- With the runtime module noted, the part before the compile restores the stylesheet, goes on to
make a request, or fails. -/
theorem prepares_of_run {made : Except Failure (Option Request)}
    (h : (prepare settings p).run pass = (made, mid)) : ∃ modules,
      pass.sheet.needRuntime runtimeModule = { pass.sheet with runtimeModules := modules } ∧
      Prepares settings p pass modules made mid := by
  obtain ⟨modules, hmodules⟩ := needRuntime_eq pass.sheet runtimeModule
  refine ⟨modules, hmodules, ?_⟩
  rw [prepare, run_changeSheet_bind, hmodules, lookUp] at h
  split at h
  next huses =>
    have hp : p.usesCache = true := (Bool.and_eq_true_iff.1 huses).2
    rw [consult, bind_assoc, run_get_bind, bind_assoc, run_bind, run_ofResult] at h
    cases hrestore : Cache.restore pass.session.disk p
        { pass.sheet with runtimeModules := modules } tag with
    | error failure =>
      rw [hrestore] at h
      obtain ⟨rfl, rfl⟩ := Prod.mk.inj h
      exact .refused failure huses hrestore
    | ok found =>
      obtain ⟨hit, sheet, records⟩ := found
      rw [hrestore] at h
      rcases restore_cases hrestore with ⟨rfl, rfl, hinvalid⟩ | ⟨rfl, directory, entry, hcache,
        hvalid, hread, rfl⟩
      · exact .missed records (fun _ directory hcache => ⟨records, hinvalid hp directory hcache⟩) h
      · obtain ⟨rfl, rfl⟩ := Prod.mk.inj h
        exact .restored entry _ ⟨huses, directory, hcache, ⟨records, hvalid⟩, hread⟩
  next hunused =>
    refine .missed [] (fun huses => absurd huses hunused) ?_
    rw [List.append_nil]
    exact h

/-- A request is made where the cache has no entry that may be used and there is what it is made
of. -/
theorem exists_prepare_run (h : Makes settings p pass text given found)
    (hmiss : Misses settings p pass.session.disk pass.sheet.path) : ∃ mid,
    (prepare settings p).run pass =
      (.ok (some (requestFor settings p pass.sheet text given)), mid) ∧
    Awaits pass mid text found := by
  obtain ⟨modules, records, hprepare⟩ := exists_prepare_eq hmiss
  obtain ⟨mid, hmade, hawaits⟩ := exists_makeRequest_run (makes_noted_iff.2 h)
  exact ⟨mid, hprepare.trans hmade, hawaits.of_noted⟩

/-- Whatever request is made, the cache had no entry that may be used, and there was what the
request is made of. -/
theorem exists_makes_of_prepare
    (h : (prepare settings p).run pass = (.ok (some request), mid)) :
    Misses settings p pass.session.disk pass.sheet.path ∧ ∃ text given found,
      Makes settings p pass text given found ∧
        request = requestFor settings p pass.sheet text given ∧ Awaits pass mid text found := by
  obtain ⟨modules, -, hprepares⟩ := prepares_of_run h
  cases hprepares with
  | missed records hmiss hmake =>
    obtain ⟨text, given, found, hmakes, hrequest, hawaits⟩ := exists_makes_of_makeRequest hmake
    exact ⟨hmiss, text, given, found, makes_noted_iff.1 hmakes, hrequest, hawaits.of_noted⟩

end StyleBundle.Transform
