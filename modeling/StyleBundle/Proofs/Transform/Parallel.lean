import StyleBundle.Proofs.Transform.Pass

/-!
# Passes side by side

A pass waits at one point only. Two passes over the same stylesheet come to that point alike, though
other passes may have changed the disk, asked the compiler and read the resources before one of
them: all that matters is what their disks say about the source, how their compilers compile, and
which resources they get.
-/

namespace StyleBundle

/-- A way of compiling that makes its report of the request alone, whatever was compiled before and
whatever the disk holds, as long as the request has this hook. -/
def Compiler.Kind.IsFunctional (kind : Compiler.Kind) (hook : Option Import.Hook) : Prop :=
  ∃ outcome : Request → Except Failure Report, ∀ compiler : Compiler, compiler.kind = kind →
    ∀ d request, request.hook = hook → (compiler.render d request).report = outcome request

namespace Transform

variable {α β : Type} {pass pass' mid : Pass} {settings : Settings} {p : Project} {path : String}
  {request : Request}

/-- The part of a pass up to the point at which it waits. There is no report to wait for if there is
no request. -/
def launch (settings : Settings) (p : Project) : Part (Option Report) := do
  match ← prepare settings p with
  | none => return none
  | some request => return some (← submit request)

/-- A whole pass goes on with the report that it has waited for. -/
theorem run_transform (settings : Settings) (p : Project) (pass : Pass) :
    (transform settings p).run pass =
      match (launch settings p).run pass with
      | (.ok none, mid) => (.ok (), mid)
      | (.ok (some report), mid) => (settle settings p report).run mid
      | (.error failure, mid) => (.error failure, mid) := by
  rw [transform, launch, run_bind, run_bind]
  cases hprepare : (prepare settings p).run pass with
  | mk result mid =>
    cases result with
    | error failure => rfl
    | ok request =>
      cases request with
      | none => rfl
      | some request =>
        simp only
        rw [run_bind, run_bind]
        cases hsubmit : (submit request).run mid with
        | mk result sent =>
          cases result with
          | error failure => rfl
          | ok report => rfl

/-! ## What passes have in common -/

/-- The hook that the settings ask for in a project. -/
def hookFor (settings : Settings) (p : Project) : Option Import.Hook :=
  Request.hookOf p settings (Request.projectMacros p settings.macros)

/-- Disks that say the same about a source. -/
structure Alike (settings : Settings) (p : Project) (path : String) (d d' : Disk) : Prop where
  /-- The working directory is the same. -/
  home : d'.home = d.home
  /-- A stylesheet of the source is restored alike, where the cache is used. -/
  restore : usesCache settings p = true → ∀ sheet : Sheet, sheet.path = path →
    Cache.restore d' p sheet tag = Cache.restore d p sheet tag
  /-- The source holds the same text. -/
  text : d'.readText path = d.readText path
  /-- A text of the source has the same dependencies. -/
  dependencies : ∀ request : Request, request.hook = hookFor settings p → ∀ text,
    Dependency.dependencies d' (searchOf request) path text =
      Dependency.dependencies d (searchOf request) path text

/-- A session that has read the resources, or needs none, so that they stay what they are. -/
def Furnished (settings : Settings) (s : Session) : Prop :=
  settings.resources.isEmpty = true ∨ s.resources.isSome = true

/-- Resources that have been read do not depend on the disk. -/
theorem Furnished.resourcesOf_eq {s s' : Session} (h : Furnished settings s)
    (hresources : s'.resources = s.resources) :
    resourcesOf settings s' = resourcesOf settings s := by
  unfold resourcesOf
  split
  · rfl
  next hsome =>
    obtain ⟨given, hgiven⟩ := Option.isSome_iff_exists.1 (h.resolve_left hsome)
    simp only [Session.loadResources, hresources, hgiven]

/-- Resources that have been read are the ones that are read again. -/
theorem resourcesOf_loadResources (settings : Settings) (s : Session) :
    resourcesOf settings (s.loadResources settings.resources).2 = resourcesOf settings s := by
  unfold resourcesOf
  split
  · rfl
  · unfold Session.loadResources
    cases hread : s.resources with
    | some given => simp only [hread]
    | none =>
      cases htexts : Session.readTexts s.disk settings.resources with
      | error failure => simp only [hread, htexts]
      | ok texts => rfl

/-- Resources that have been read are not read again. -/
theorem Furnished.loadResources {s : Session} (h : Furnished settings s) :
    Furnished settings (s.loadResources settings.resources).2 := by
  refine h.imp_right fun hsome => ?_
  obtain ⟨given, hgiven⟩ := Option.isSome_iff_exists.1 hsome
  simp [Session.loadResources, hgiven]

/-- A pass that goes on on the terms on which it has started: nothing that it depends on has changed
but its own stylesheet. -/
structure SameTerms (settings : Settings) (pass pass' : Pass) : Prop where
  /-- The stylesheet is one of the same source. -/
  source : pass'.sheet.path = pass.sheet.path
  /-- The disk is the same. -/
  disk : pass'.session.disk = pass.session.disk
  /-- The compiler compiles in the same way. -/
  kind : kindOf pass' = kindOf pass
  /-- The resources are the same. -/
  resources : resourcesOf settings pass'.session = resourcesOf settings pass.session
  /-- Resources that have been read are kept. -/
  furnished : Furnished settings pass.session → Furnished settings pass'.session

namespace SameTerms

/-- Changing the stylesheet and logging leaves the terms. -/
theorem of_eq (hsource : pass'.sheet.path = pass.sheet.path)
    (hsession : pass'.session = pass.session) (hown : pass'.own = pass.own) :
    SameTerms settings pass pass' where
  source := hsource
  disk := by rw [hsession]
  kind := by rw [kindOf, kindOf, compilerOf, compilerOf, hsession, hown]
  resources := by rw [hsession]
  furnished h := hsession ▸ h

theorem refl (pass : Pass) : SameTerms settings pass pass := .of_eq rfl rfl rfl

theorem trans (h : SameTerms settings pass mid) (h' : SameTerms settings mid pass') :
    SameTerms settings pass pass' :=
  ⟨h'.source.trans h.source, h'.disk.trans h.disk, h'.kind.trans h.kind,
    h'.resources.trans h.resources, h'.furnished ∘ h.furnished⟩

end SameTerms

/-- The terms stay the same along the way to a request. -/
theorem admits_terms (settings : Settings) : Admits settings (SameTerms settings) where
  refl := .refl
  trans _ _ _ h h' := h.trans h'
  records _ _ := .of_eq rfl rfl rfl
  contents _ _ := .of_eq rfl rfl rfl
  compiler pass shared hown hshared := by
    have hcompiler : compilerOf pass = .ok shared := by rw [compilerOf, hown, hshared]
    exact ⟨rfl, rfl, by rw [kindOf, kindOf, hcompiler, compilerOf, hown]; rfl,
      resourcesOf_congr rfl rfl, id⟩
  furnished pass := by
    have hsame := resourcesOf_loadResources settings pass.session
    have hfurnished : Furnished settings pass.session →
        Furnished settings (pass.session.loadResources settings.resources).2 :=
      Furnished.loadResources
    obtain ⟨kept, hkept⟩ := exists_loadResources_eq pass.session settings.resources
    rw [hkept] at hsame hfurnished ⊢
    exact ⟨rfl, rfl, rfl, hsame, hfurnished⟩

/-- Any change of the stylesheet but for its source leaves the terms. -/
theorem SameTerms.of_path (pass : Pass) (sheet : Sheet) (hpath : sheet.path = pass.sheet.path) :
    SameTerms settings pass { pass with sheet } :=
  .of_eq hpath rfl rfl

/-- A part that leaves the terms of its pass, also where it fails. -/
def KeepsTerms (settings : Settings) (part : Part α) : Prop :=
  ∀ pass, SameTerms settings pass (part.run pass).2

/-- Passes over the same stylesheet that are bound to do the same. -/
structure Matches (settings : Settings) (p : Project) (path : String) (pass pass' : Pass) :
    Prop where
  /-- The stylesheet is one of the source. -/
  source : pass.sheet.path = path
  /-- The stylesheet is the same. -/
  sheet : pass'.sheet = pass.sheet
  /-- The disks say the same about the source. -/
  disk : Alike settings p path pass.session.disk pass'.session.disk
  /-- The compilers compile in one way. -/
  kind : kindOf pass' = kindOf pass
  /-- They do so by the request alone. -/
  functional : ∀ kind, kindOf pass = .ok kind → kind.IsFunctional (hookFor settings p)
  /-- The resources are the same. -/
  resources : resourcesOf settings pass'.session = resourcesOf settings pass.session

/-- Passes that go on on the same terms with the same stylesheet are still bound to do the same. -/
theorem Matches.of_terms {mid' : Pass} (h : Matches settings p path pass pass')
    (hterms : SameTerms settings pass mid) (hterms' : SameTerms settings pass' mid')
    (hsheet : mid'.sheet = mid.sheet) : Matches settings p path mid mid' where
  source := hterms.source.trans h.source
  sheet := hsheet
  disk := by
    rw [hterms.disk, hterms'.disk]
    exact h.disk
  kind := hterms'.kind.trans (h.kind.trans hterms.kind.symm)
  functional := hterms.kind ▸ h.functional
  resources := hterms'.resources.trans (h.resources.trans hterms.resources.symm)

/-- A part that gives the same in passes that are bound to do the same, and leaves them so. -/
structure Parallel (settings : Settings) (p : Project) (path : String) (part : Part α) : Prop where
  /-- The part leaves the terms of its pass. -/
  terms : KeepsTerms settings part
  /-- It gives the same, and leaves the same stylesheet. -/
  same : ∀ ⦃pass pass'⦄, Matches settings p path pass pass' →
    (part.run pass').1 = (part.run pass).1 ∧ (part.run pass').2.sheet = (part.run pass).2.sheet

namespace Parallel

theorem pure (a : α) : Parallel settings p path (Pure.pure a : Part α) :=
  ⟨fun pass => .refl pass, fun _ _ h => ⟨rfl, h.sheet⟩⟩

theorem log (records : List LogRecord) : Parallel settings p path (log records) :=
  ⟨fun _ => .of_eq rfl rfl rfl, fun _ _ h => ⟨rfl, h.sheet⟩⟩

/-- Changing a stylesheet, but for its source, changes it alike. -/
theorem changeSheet {f : Sheet → Sheet} (hf : ∀ sheet, (f sheet).path = sheet.path) :
    Parallel settings p path (changeSheet f) :=
  ⟨fun pass => .of_eq (hf pass.sheet) rfl rfl, fun _ _ h => ⟨rfl, congrArg f h.sheet⟩⟩

/-- Parts in a row are parallel if each of them is, whatever the first one gives. -/
theorem bind_of_run {x : Part α} {f : α → Part β} (hx : Parallel settings p path x)
    (hf : ∀ a pass mid, x.run pass = (.ok a, mid) → Parallel settings p path (f a)) :
    Parallel settings p path (x >>= f) := by
  refine ⟨Moves.bind_of_run (fun _ _ _ h h' => h.trans h') hx.terms fun a pass mid hrun =>
    (hf a pass mid hrun).terms, fun pass pass' h => ?_⟩
  obtain ⟨hresult, hsheet⟩ := hx.same h
  have hmid := h.of_terms (hx.terms pass) (hx.terms pass') hsheet
  rw [run_bind, run_bind]
  cases hrun : x.run pass with
  | mk result mid =>
    cases hrun' : x.run pass' with
    | mk result' mid' =>
      rw [hrun, hrun'] at hresult hsheet hmid
      obtain rfl : result' = result := hresult
      cases result' with
      | ok a => exact (hf a pass mid hrun).same hmid
      | error failure => exact ⟨rfl, hsheet⟩

theorem bind {x : Part α} {f : α → Part β} (hx : Parallel settings p path x)
    (hf : ∀ a, Parallel settings p path (f a)) : Parallel settings p path (x >>= f) :=
  hx.bind_of_run fun a _ _ _ => hf a

end Parallel

/-! ## The parts before the wait -/

/-- A look into the cache comes to the same result where a stylesheet is restored alike. -/
theorem parallel_lookUp : Parallel settings p path (lookUp settings p) := by
  refine ⟨(admits_terms settings).lookUp .of_path p, fun pass pass' h => ?_⟩
  unfold lookUp
  split
  next huses =>
    have hrestore := h.disk.restore huses pass.sheet h.source
    rw [consult, run_get_bind, run_get_bind, h.sheet, hrestore]
    cases Cache.restore pass.session.disk p pass.sheet tag with
    | error failure => exact ⟨rfl, h.sheet⟩
    | ok restored => exact ⟨rfl, rfl⟩
  next => exact ⟨rfl, h.sheet⟩

/-- The source is loaded alike where it holds the same text. -/
theorem parallel_load : Parallel settings p path load := by
  refine ⟨(admits_terms settings).load, fun pass pass' h => ?_⟩
  have htext : pass'.session.disk.readText pass.sheet.path =
      pass.session.disk.readText pass.sheet.path := h.source ▸ h.disk.text
  have hload : pass.sheet.load pass'.session.disk = pass.sheet.load pass.session.disk := by
    simp only [Sheet.load, htext]
  rw [load, run_get_bind, run_get_bind, h.sheet, hload]
  cases pass.sheet.load pass.session.disk with
  | error failure => exact ⟨rfl, h.sheet⟩
  | ok loaded => exact ⟨rfl, rfl⟩

/-- Where there is no compiler, a pass fails for want of it. -/
theorem requireCompiler_run_of_error {failure : Failure} (h : compilerOf pass = .error failure) :
    requireCompiler.run pass = (.error failure, pass) := by
  have hown : pass.own = none := by
    cases hown : pass.own with
    | none => rfl
    | some own => simp [compilerOf, hown] at h
  have hshared : pass.session.sharedCompiler = .error failure := by
    simpa only [compilerOf, hown] using h
  rw [requireCompiler, run_get_bind, if_pos (by simp [hown]), hshared]
  rfl

/-- Compilers that compile in one way are both there, or both are wanting for one reason. -/
theorem compilerOf_cases_of_kind (h : kindOf pass' = kindOf pass) :
    (∃ failure, compilerOf pass = .error failure ∧ compilerOf pass' = .error failure) ∨
      ∃ compiler compiler', compilerOf pass = .ok compiler ∧ compilerOf pass' = .ok compiler' ∧
        compiler'.kind = compiler.kind := by
  unfold kindOf at h
  cases hcompiler : compilerOf pass with
  | error failure =>
    cases hcompiler' : compilerOf pass' with
    | ok compiler' => simp [hcompiler, hcompiler', Except.map] at h
    | error failure' =>
      obtain rfl : failure' = failure := by simpa [hcompiler, hcompiler', Except.map] using h
      exact .inl ⟨failure', rfl, rfl⟩
  | ok compiler =>
    cases hcompiler' : compilerOf pass' with
    | error failure => simp [hcompiler, hcompiler', Except.map] at h
    | ok compiler' =>
      rw [hcompiler, hcompiler'] at h
      exact .inr ⟨compiler, compiler', rfl, rfl, Except.ok.inj h⟩

theorem parallel_requireCompiler : Parallel settings p path requireCompiler := by
  refine ⟨(admits_terms settings).requireCompiler, fun pass pass' h => ?_⟩
  rcases compilerOf_cases_of_kind h.kind with
    ⟨failure, hcompiler, hcompiler'⟩ | ⟨compiler, compiler', hcompiler, hcompiler', -⟩
  · rw [requireCompiler_run_of_error hcompiler, requireCompiler_run_of_error hcompiler']
    exact ⟨rfl, h.sheet⟩
  · obtain ⟨shared, hrun, -⟩ := exists_requireCompiler_run hcompiler
    obtain ⟨shared', hrun', -⟩ := exists_requireCompiler_run hcompiler'
    rw [hrun, hrun']
    exact ⟨rfl, h.sheet⟩

theorem parallel_resources : Parallel settings p path (resources settings) := by
  refine ⟨(admits_terms settings).resources, fun pass pass' h => ?_⟩
  rw [resources_run, resources_run]
  refine ⟨h.resources, ?_⟩
  split
  · exact h.sheet
  · exact h.sheet

theorem parallel_extractDependencies (hhook : request.hook = hookFor settings p) :
    Parallel settings p path (extractDependencies request) := by
  refine ⟨(admits_terms settings).extractDependencies (fun pass _ => .of_path pass _ rfl) request,
    fun pass pass' h => ?_⟩
  have hfound := h.disk.dependencies request hhook (pass.sheet.contents.getD "")
  rw [extractDependencies, run_get_bind, run_get_bind, h.sheet, h.source, hfound]
  cases Dependency.dependencies pass.session.disk (searchOf request) path
      (pass.sheet.contents.getD "") with
  | error failure => exact ⟨rfl, h.sheet⟩
  | ok found => exact ⟨rfl, congrArg ({ · with styleDependencies := some found }) h.sheet⟩

theorem parallel_submit (hhook : request.hook = hookFor settings p) :
    Parallel settings p path (submit request) := by
  constructor
  · intro pass
    have hsent := submits request pass
    exact ⟨congrArg Sheet.path hsent.sheet, hsent.disk, hsent.kind,
      resourcesOf_congr hsent.disk hsent.resources,
      fun h => h.imp_right fun hsome => hsent.resources.symm ▸ hsome⟩
  · intro pass pass' h
    have hsent := submits request pass
    have hsent' := submits request pass'
    refine ⟨?_, hsent'.sheet.trans (h.sheet.trans hsent.sheet.symm)⟩
    rw [hsent.answer_eq, hsent'.answer_eq]
    rcases compilerOf_cases_of_kind h.kind with
      ⟨failure, hcompiler, hcompiler'⟩ | ⟨compiler, compiler', hcompiler, hcompiler', hkind⟩
    · rw [hcompiler, hcompiler']
      rfl
    · obtain ⟨outcome, houtcome⟩ := h.functional compiler.kind (by rw [kindOf, hcompiler]; rfl)
      rw [hcompiler, hcompiler']
      exact (houtcome compiler' hkind pass'.session.disk request hhook).trans
        (houtcome compiler rfl pass.session.disk request hhook).symm

/-- What goes on with the stylesheet of a pass is parallel if it is for every stylesheet. -/
theorem Parallel.get_bind {f : Sheet → Part β} (hf : ∀ sheet, Parallel settings p path (f sheet)) :
    Parallel settings p path (get >>= fun pass : Pass => f pass.sheet) := by
  constructor
  · intro pass
    rw [run_get_bind]
    exact (hf pass.sheet).terms pass
  · intro pass pass' h
    rw [run_get_bind, run_get_bind, h.sheet]
    exact (hf pass.sheet).same h

/-- What becomes of a stylesheet that is loaded: there is a request for it unless it is empty. -/
def requestOf (settings : Settings) (p : Project) (sheet : Sheet) : Part (Option Request) := do
  if sheet.contents.getD "" = "" then return none
  requireCompiler
  let given ← resources settings
  let macros := Request.projectMacros p settings.macros
  let request := Request.build p (← get).sheet settings macros given
  extractDependencies request
  return some request

theorem parallel_requestOf (sheet : Sheet) :
    Parallel settings p path (requestOf settings p sheet) := by
  unfold requestOf
  split
  · exact .pure none
  · refine .bind parallel_requireCompiler fun _ => .bind parallel_resources fun given => ?_
    have hextract (sheet : Sheet) : Parallel settings p path (do
        extractDependencies (Request.build p sheet settings
          (Request.projectMacros p settings.macros) given)
        return some (Request.build p sheet settings
          (Request.projectMacros p settings.macros) given)) :=
      .bind (parallel_extractDependencies rfl) fun _ => .pure _
    exact .get_bind hextract

/-- A request is made alike. -/
theorem parallel_makeRequest : Parallel settings p path (makeRequest settings p) :=
  .bind parallel_load fun _ => Parallel.get_bind (f := requestOf settings p) parallel_requestOf

/-- Passes that are bound to do the same come to their requests alike. -/
theorem parallel_prepare : Parallel settings p path (prepare settings p) := by
  refine .bind (.changeSheet fun sheet => path_needRuntime sheet _) fun _ => ?_
  refine .bind parallel_lookUp fun hit => .bind (.changeSheet fun _ => rfl) fun _ => ?_
  cases hit with
  | false => exact parallel_makeRequest
  | true =>
    exact Parallel.get_bind
      (f := fun sheet => log [hitRecord sheet.path] >>= fun _ => Pure.pure none)
      fun sheet => .bind (.log _) fun _ => .pure none

/-- The hook of a request is the one that the settings ask for. -/
theorem hook_of_prepare (h : (prepare settings p).run pass = (.ok (some request), mid)) :
    request.hook = hookFor settings p := by
  obtain ⟨-, text, given, found, -, rfl, -⟩ := exists_makes_of_prepare h
  rfl

/-- Passes that are bound to do the same come to the wait alike. -/
theorem parallel_launch : Parallel settings p path (launch settings p) := by
  refine parallel_prepare.bind_of_run fun request pass mid hrun => ?_
  cases request with
  | none => exact .pure none
  | some request =>
    exact .bind (parallel_submit (hook_of_prepare hrun)) fun report => .pure (some report)

/-- Coming to the wait leaves the terms of a pass. -/
theorem keepsTerms_launch (settings : Settings) (p : Project) :
    KeepsTerms settings (launch settings p) := by
  intro pass
  have hpar : Parallel settings p pass.sheet.path (launch settings p) := parallel_launch
  exact hpar.terms pass

/-- A pass that waits works on the disk and for the source that it has started with, and the whole
pass goes on from there. -/
theorem run_transform_of_launch {report : Report}
    (h : (launch settings p).run pass = (.ok (some report), mid)) :
    mid.session.disk = pass.session.disk ∧ mid.sheet.path = pass.sheet.path ∧
      (transform settings p).run pass = (settle settings p report).run mid := by
  have hterms := keepsTerms_launch settings p pass
  have hwhole := run_transform settings p pass
  rw [h] at hterms hwhole
  exact ⟨hterms.disk, hterms.source, hwhole⟩

/-! ## Resources that have been read -/

/-- Resources that are read are there. -/
theorem furnished_of_resources {given : Option String}
    (h : (resources settings).run pass = (.ok given, mid)) : Furnished settings mid.session := by
  rw [resources_run] at h
  obtain ⟨hgiven, rfl⟩ := Prod.mk.inj h
  unfold resourcesOf at hgiven
  split
  next hnone => exact .inl hnone
  next hsome =>
    rw [if_neg hsome] at hgiven
    unfold Session.loadResources at hgiven ⊢
    cases hread : pass.session.resources with
    | some kept => exact .inr (by simp [hread])
    | none =>
      cases htexts : Session.readTexts pass.session.disk settings.resources with
      | error failure => simp [hread, htexts] at hgiven
      | ok texts => exact .inr rfl

/-- A pass that makes a request has read the resources. -/
theorem furnished_of_makeRequest
    (h : (makeRequest settings p).run pass = (.ok (some request), mid)) :
    Furnished settings mid.session := by
  rw [makeRequest] at h
  obtain ⟨_, loaded, -, h⟩ := exists_run_of_bind h
  rw [run_get_bind] at h
  split at h
  · rw [run_pure] at h
    cases h
  · obtain ⟨_, ready, -, h⟩ := exists_run_of_bind h
    obtain ⟨given, furnished, hfurnished, h⟩ := exists_run_of_bind h
    simp only [run_get_bind] at h
    obtain ⟨_, extracted, hextract, h⟩ := exists_run_of_bind h
    obtain ⟨found, -, rfl⟩ := extractDependencies_run_eq_ok_iff.1 hextract
    rw [run_pure] at h
    obtain ⟨-, rfl⟩ := Prod.mk.inj h
    have hread := furnished_of_resources hfurnished
    exact hread

/-- A pass that waits has read the resources. -/
theorem furnished_of_launch {report : Report}
    (h : (launch settings p).run pass = (.ok (some report), mid)) :
    Furnished settings mid.session := by
  rw [launch] at h
  obtain ⟨request, prepared, hprepare, h⟩ := exists_run_of_bind h
  cases request with
  | none =>
    rw [run_pure] at h
    cases h
  | some request =>
    rw [prepare, run_changeSheet_bind] at hprepare
    obtain ⟨hit, looked, -, hprepare⟩ := exists_run_of_bind hprepare
    rw [run_changeSheet_bind] at hprepare
    cases hit with
    | true => cases hprepare
    | false =>
      obtain ⟨reported, sent, hsubmit, h⟩ := exists_run_of_bind h
      have hresources := (submits_of_run hsubmit).resources
      rw [run_pure] at h
      obtain ⟨-, rfl⟩ := Prod.mk.inj h
      exact (furnished_of_makeRequest hprepare).imp_right fun hsome => hresources.symm ▸ hsome

/-! ## The part behind the wait -/

/-- A diagnosis is recorded alike on disks with the same working directory. -/
theorem diagnostic_congr {d d' : Disk} (hhome : d'.home = d.home) (path : String)
    (diagnosis : Diagnosis) : diagnostic d' path diagnosis = diagnostic d path diagnosis := by
  simp only [diagnostic, Disk.absolute, Disk.homePath, hhome]

/-- A report that stores no entry ends a pass alike wherever it works, and changes the stylesheet
and the log only. -/
theorem exists_settle_eq (report : Report)
    (hstores : ∀ output directory, report = ⟨none, some output⟩ → p.cache = some directory →
      usesCache settings p = false) (home : Location) :
    ∃ (result : Except Failure Unit) (change : Sheet → Sheet),
      ∀ pass : Pass, pass.session.disk.home = home → ∃ records,
        (settle settings p report).run pass =
          (result, { pass with sheet := change pass.sheet, records }) := by
  obtain ⟨diagnosis, output⟩ := report
  cases diagnosis with
  | some diagnosis =>
    refine ⟨.ok (), fun sheet => { sheet with contents := some "" }.addError
      (diagnostic ⟨[], home, ⟨0⟩⟩ sheet.path diagnosis), fun pass hhome => ?_⟩
    refine ⟨pass.records ++ [failedRecord pass.sheet.path diagnosis.message], ?_⟩
    have hsame : diagnostic ⟨[], home, ⟨0⟩⟩ pass.sheet.path diagnosis =
        diagnostic pass.session.disk pass.sheet.path diagnosis :=
      diagnostic_congr hhome.symm pass.sheet.path diagnosis
    simp only [hsame]
    rfl
  | none =>
    cases output with
    | none => exact ⟨.error .noOutcome, id, fun pass _ => ⟨pass.records, rfl⟩⟩
    | some output =>
      refine ⟨.ok (),
        fun sheet => { sheet with sourceMap := output.map, contents := some output.css },
        fun pass _ => ⟨pass.records, ?_⟩⟩
      cases hcache : p.cache with
      | none =>
        simp only [settle, run_changeSheet_bind, hcache]
        cases usesCache settings p <;> rfl
      | some directory =>
        simp only [settle, run_changeSheet_bind, hstores output directory rfl hcache]
        rfl

end Transform

end StyleBundle
