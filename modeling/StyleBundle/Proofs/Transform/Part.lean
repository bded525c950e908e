import StyleBundle.Transform

/-!
# Parts of a pass

A pass is run part by part. For each part this module says what running it gives, and that the parts
before the store leave the disk as it is, whether they succeed or not.
-/

namespace StyleBundle

/-- A compiler compiles in the same way afterwards. -/
theorem Compiler.kind_render (compiler : Compiler) (d : Disk) (request : Request) :
    (compiler.render d request).compiler.kind = compiler.kind := by
  unfold render
  split <;> rfl

/-- Operations that may fail, in a row: what the first one has changed is there for the second one,
which is run where the first one has succeeded. -/
theorem Failure.run_bind {σ α β : Type} (x : ExceptT Failure (StateM σ) α)
    (f : α → ExceptT Failure (StateM σ) β) (s : σ) : StateT.run (ExceptT.run (x >>= f)) s =
      match StateT.run (ExceptT.run x) s with
      | (result, mid) =>
        match result with
        | .ok a => StateT.run (ExceptT.run (f a)) mid
        | .error failure => (.error failure, mid) := by
  simp only [ExceptT.run_bind, StateT.run_bind]
  cases hx : StateT.run (ExceptT.run x) s with
  | mk result mid =>
    cases result with
    | ok a => rfl
    | error failure => rfl

namespace Transform

variable {α β : Type} {pass pass' : Pass} {settings : Settings} {p : Project}

/-! ## Running parts -/

theorem run_pure (a : α) (pass : Pass) : Part.run (pure a) pass = (.ok a, pass) := rfl

theorem run_get (pass : Pass) : Part.run get pass = (.ok pass, pass) := rfl

theorem run_ofResult (result : Except Failure α) (pass : Pass) :
    Part.run (ofResult result) pass = (result, pass) := rfl

theorem run_changeSheet (f : Sheet → Sheet) (pass : Pass) :
    Part.run (changeSheet f) pass = (.ok (), { pass with sheet := f pass.sheet }) := rfl

theorem run_log (records : List LogRecord) (pass : Pass) :
    Part.run (log records) pass = (.ok (), { pass with records := pass.records ++ records }) := rfl

/-- Parts in a row: the second one is run where the first one has succeeded. -/
theorem run_bind (x : Part α) (f : α → Part β) (pass : Pass) : Part.run (x >>= f) pass =
    match x.run pass with
    | (result, mid) =>
      match result with
      | .ok a => (f a).run mid
      | .error failure => (.error failure, mid) :=
  Failure.run_bind x f pass

theorem run_bind_of_ok {x : Part α} {a : α} (h : x.run pass = (.ok a, pass')) (f : α → Part β) :
    Part.run (x >>= f) pass = (f a).run pass' := by
  rw [run_bind, h]

/-- Parts in a row succeed one after the other. -/
theorem exists_run_of_bind {x : Part α} {f : α → Part β} {b : β}
    (h : Part.run (x >>= f) pass = (.ok b, pass')) :
    ∃ a mid, x.run pass = (.ok a, mid) ∧ (f a).run mid = (.ok b, pass') := by
  rw [run_bind] at h
  cases hx : x.run pass with
  | mk result mid =>
    rw [hx] at h
    cases result with
    | error failure => cases h
    | ok a => exact ⟨a, mid, rfl, h⟩

theorem run_bind_of_error {x : Part α} {failure : Failure} (h : x.run pass = (.error failure, pass'))
    (f : α → Part β) : Part.run (x >>= f) pass = (.error failure, pass') := by
  rw [run_bind, h]

/-- Parts in a row fail where the first one fails, or the second one behind it. -/
theorem error_or_exists_of_bind {x : Part α} {f : α → Part β} {failure : Failure}
    (h : Part.run (x >>= f) pass = (.error failure, pass')) :
    x.run pass = (.error failure, pass') ∨
      ∃ a mid, x.run pass = (.ok a, mid) ∧ (f a).run mid = (.error failure, pass') := by
  rw [run_bind] at h
  cases hx : x.run pass with
  | mk result mid =>
    rw [hx] at h
    cases result with
    | error other =>
      obtain ⟨hfailure, rfl⟩ := Prod.mk.inj h
      obtain rfl := Except.error.inj hfailure
      exact .inl rfl
    | ok a => exact .inr ⟨a, mid, rfl, h⟩

theorem run_get_bind (f : Pass → Part β) (pass : Pass) :
    Part.run (get >>= f) pass = (f pass).run pass := run_bind_of_ok (run_get pass) f

theorem run_changeSheet_bind (g : Sheet → Sheet) (f : Unit → Part β) (pass : Pass) :
    Part.run (changeSheet g >>= f) pass = (f ()).run { pass with sheet := g pass.sheet } :=
  run_bind_of_ok (run_changeSheet g pass) f

theorem run_log_bind (records : List LogRecord) (f : Unit → Part β) (pass : Pass) :
    Part.run (log records >>= f) pass =
      (f ()).run { pass with records := pass.records ++ records } :=
  run_bind_of_ok (run_log records pass) f

/-- A result in front of a part has to succeed. -/
theorem exists_run_of_ofResult_bind {result : Except Failure α} {f : α → Part β} {b : β}
    (h : Part.run (ofResult result >>= f) pass = (.ok b, pass')) :
    ∃ a, result = .ok a ∧ (f a).run pass = (.ok b, pass') := by
  obtain ⟨a, mid, hresult, h⟩ := exists_run_of_bind h
  rw [run_ofResult] at hresult
  obtain ⟨rfl, rfl⟩ := Prod.mk.inj hresult
  exact ⟨a, rfl, h⟩

/-! ## What a part does -/

/-- Noting a runtime module leaves a stylesheet to its source. -/
theorem path_needRuntime (sheet : Sheet) (name : String) :
    (sheet.needRuntime name).path = sheet.path := by
  unfold Sheet.needRuntime
  split <;> rfl

/-- The compiler that a pass hands its request to: the plugin's own one or the shared one. -/
def compilerOf (pass : Pass) : Except Failure Compiler :=
  match pass.own with
  | some own => .ok own
  | none => pass.session.sharedCompiler

/-- How the compiler of a pass compiles. -/
def kindOf (pass : Pass) : Except Failure Compiler.Kind := (compilerOf pass).map Compiler.kind

/-- Where there is a compiler, the shared one is made sure of at most. -/
theorem exists_requireCompiler_run {compiler : Compiler} (h : compilerOf pass = .ok compiler) :
    ∃ shared, requireCompiler.run pass =
        (.ok (), { pass with session := { pass.session with compiler := shared } }) ∧
      compilerOf { pass with session := { pass.session with compiler := shared } } =
        .ok compiler := by
  rw [requireCompiler, run_get_bind]
  rcases Option.eq_none_or_eq_some pass.own with hown | ⟨own, hown⟩
  · have hshared : pass.session.sharedCompiler = .ok compiler := by
      simpa [compilerOf, hown] using h
    refine ⟨some compiler, ?_, by simp [compilerOf, Session.sharedCompiler, hown]⟩
    rw [if_pos (by simp [hown]), hshared]
    rfl
  · refine ⟨pass.session.compiler, ?_, by simpa [compilerOf, hown] using h⟩
    rw [if_neg (by simp [hown]), run_pure]

/-- A compiler that is made sure of is there. -/
theorem exists_compilerOf_of_requireCompiler (h : requireCompiler.run pass = (.ok (), pass')) :
    ∃ compiler, compilerOf pass = .ok compiler := by
  rw [requireCompiler, run_get_bind] at h
  cases hown : pass.own with
  | some own => exact ⟨own, by simp [compilerOf, hown]⟩
  | none =>
    rw [if_pos (by simp [hown])] at h
    obtain ⟨shared, hshared, -⟩ := exists_run_of_ofResult_bind h
    exact ⟨shared, by simp [compilerOf, hown, hshared]⟩

/-- What a request is answered with and what it leaves: nothing is changed but the log and what the
pass's compiler has been asked. -/
structure Submits (request : Request) (pass : Pass) (answer : Except Failure Report) (sent : Pass) :
    Prop where
  /-- The answer is the report of the pass's compiler. -/
  answer_eq : answer = (compilerOf pass).bind fun compiler =>
    (compiler.render pass.session.disk request).report
  /-- The disk stays as it is. -/
  disk : sent.session.disk = pass.session.disk
  /-- The resources stay as they are. -/
  resources : sent.session.resources = pass.session.resources
  /-- The stylesheet stays as it is. -/
  sheet : sent.sheet = pass.sheet
  /-- The compiler compiles in the same way. -/
  kind : kindOf sent = kindOf pass

/-- A request is submitted to the plugin's own compiler or to the shared one. -/
theorem submits_of_run {request : Request} {answer : Except Failure Report} {sent : Pass}
    (h : (submit request).run pass = (answer, sent)) : Submits request pass answer sent := by
  rw [submit, run_get_bind] at h
  cases hown : pass.own with
  | some own =>
    rw [hown] at h
    obtain ⟨rfl, rfl⟩ := Prod.mk.inj h
    refine ⟨by rw [compilerOf, hown]; rfl, rfl, rfl, rfl, ?_⟩
    rw [kindOf, kindOf, compilerOf, compilerOf, hown]
    exact congrArg Except.ok (Compiler.kind_render own pass.session.disk request)
  | none =>
    rw [hown] at h
    cases hshared : pass.session.sharedCompiler with
    | error failure =>
      rw [hshared] at h
      obtain ⟨rfl, rfl⟩ := Prod.mk.inj h
      exact ⟨by rw [compilerOf, hown, hshared]; rfl, rfl, rfl, rfl, rfl⟩
    | ok shared =>
      rw [hshared] at h
      obtain ⟨rfl, rfl⟩ := Prod.mk.inj h
      refine ⟨by rw [compilerOf, hown, hshared]; rfl, rfl, rfl, rfl, ?_⟩
      rw [kindOf, kindOf, compilerOf, compilerOf, hown, hshared]
      exact congrArg Except.ok (Compiler.kind_render shared pass.session.disk request)

theorem submits (request : Request) (pass : Pass) :
    Submits request pass ((submit request).run pass).1 ((submit request).run pass).2 :=
  submits_of_run rfl

section Limited

variable [Limits]

/-- The text of the resources that the settings name, if they name any. -/
def resourcesOf (settings : Settings) (s : Session) : Except Failure (Option String) :=
  if settings.resources.isEmpty then .ok none else (s.loadResources settings.resources).1

/-- A look into the cache restores the stylesheet or leaves it as it is, and changes nothing else.
-/
theorem consult_run_eq_ok_iff [Cache.Entry.Reader] {hit : Bool} :
    (consult p).run pass = (.ok hit, pass') ↔
    ∃ sheet records, Cache.restore pass.session.disk p pass.sheet tag = .ok (hit, sheet, records) ∧
      pass' = { pass with sheet, records := pass.records ++ records } := by
  rw [consult, run_get_bind]
  constructor
  · intro h
    obtain ⟨⟨hit', sheet, records⟩, hrestore, h⟩ := exists_run_of_ofResult_bind h
    rw [run_changeSheet_bind, run_log_bind, run_pure] at h
    obtain ⟨hhit, rfl⟩ := Prod.mk.inj h
    obtain rfl := Except.ok.inj hhit
    exact ⟨sheet, records, hrestore, rfl⟩
  · rintro ⟨sheet, records, hrestore, rfl⟩
    rw [hrestore]
    rfl

/-- A stylesheet is restored from an entry that may be used, or there is none and it stays as it is.
-/
theorem restore_cases [Cache.Entry.Reader] {d : Disk} {sheet sheet' : Sheet} {hit : Bool}
    {records : List LogRecord}
    (h : Cache.restore d p sheet tag = .ok (hit, sheet', records)) :
    (hit = false ∧ sheet' = sheet ∧ (p.usesCache = true → ∀ directory, p.cache = some directory →
      Cache.isValid d directory sheet.path tag = .ok (false, records))) ∨
    hit = true ∧ ∃ directory entry, p.cache = some directory ∧
      Cache.isValid d directory sheet.path tag = .ok (true, records) ∧
      Cache.readEntry d directory sheet.path tag = .ok entry ∧
      sheet' = Cache.restored sheet entry := by
  unfold Cache.restore at h
  split at h
  next directory huses hcache =>
    split at h
    · cases h
    next hinvalid =>
      cases h
      refine .inl ⟨rfl, rfl, fun _ other hother => ?_⟩
      obtain rfl := Option.some.inj (hcache.symm.trans hother)
      exact hinvalid
    next hvalid =>
      split at h
      · cases h
      next entry hread =>
        cases h
        exact .inr ⟨rfl, directory, entry, hcache, hvalid, hread, rfl⟩
  next hnone =>
    cases h
    exact .inl ⟨rfl, rfl, fun hp directory hcache => absurd hcache (hnone directory hp)⟩

/-- A stylesheet is restored as one of the same source. -/
theorem path_of_restore [Cache.Entry.Reader] {d : Disk} {sheet sheet' : Sheet} {hit : Bool}
    {records : List LogRecord}
    (h : Cache.restore d p sheet tag = .ok (hit, sheet', records)) : sheet'.path = sheet.path := by
  rcases restore_cases h with ⟨-, rfl, -⟩ | ⟨-, _, _, -, -, -, rfl⟩
  · rfl
  · rfl

/-- A loaded stylesheet has a text, and nothing else about it has changed. -/
theorem exists_contents_of_load {d : Disk} {sheet sheet' : Sheet} {records : List LogRecord}
    (h : sheet.load d = .ok (sheet', records)) :
    ∃ text, sheet' = { sheet with contents := some text } := by
  unfold Sheet.load at h
  split at h
  next hloaded =>
    obtain ⟨text, htext⟩ := Option.isSome_iff_exists.1 hloaded
    obtain ⟨rfl, -⟩ := Prod.mk.inj (Except.ok.inj h)
    exact ⟨text, by rw [← htext]⟩
  next =>
    split at h
    next text _ => exact ⟨text, ((Prod.mk.inj (Except.ok.inj h)).1).symm⟩
    next => exact ⟨"", ((Prod.mk.inj (Except.ok.inj h)).1).symm⟩
    · cases h

/-- Loading changes the text of the stylesheet only. -/
theorem load_run_eq_ok_iff : load.run pass = (.ok (), pass') ↔ ∃ text records,
    pass.sheet.load pass.session.disk =
      .ok ({ pass.sheet with contents := some text }, records) ∧
    pass' =
      { pass with
        sheet := { pass.sheet with contents := some text }
        records := pass.records ++ records } := by
  rw [load, run_get_bind]
  constructor
  · intro h
    obtain ⟨⟨sheet, records⟩, hload, h⟩ := exists_run_of_ofResult_bind h
    obtain ⟨text, rfl⟩ := exists_contents_of_load hload
    rw [run_changeSheet_bind, run_log] at h
    obtain ⟨-, rfl⟩ := Prod.mk.inj h
    exact ⟨text, records, hload, rfl⟩
  · rintro ⟨text, records, hload, rfl⟩
    rw [hload]
    rfl

/-- Reading the resources keeps everything else of the session. -/
theorem exists_loadResources_eq (s : Session) (paths : List String) :
    ∃ kept, (s.loadResources paths).2 = { s with resources := kept } := by
  unfold Session.loadResources
  split
  · exact ⟨s.resources, rfl⟩
  · split
    · exact ⟨s.resources, rfl⟩
    next texts _ => exact ⟨some (Session.joinTexts texts), rfl⟩

/-- Asking for the resources answers with them, and changes them in no other way than reading does.
-/
theorem resources_run (settings : Settings) (pass : Pass) : (resources settings).run pass =
    (resourcesOf settings pass.session,
      if settings.resources.isEmpty then pass
      else { pass with session := (pass.session.loadResources settings.resources).2 }) := by
  rw [resources, resourcesOf]
  split
  · rfl
  · rfl

/-- The resources are read at most. -/
theorem exists_resources_run (settings : Settings) (pass : Pass) : ∃ kept,
    (resources settings).run pass = (resourcesOf settings pass.session,
      { pass with session := { pass.session with resources := kept } }) := by
  rw [resources_run]
  split
  · exact ⟨pass.session.resources, rfl⟩
  · obtain ⟨kept, hkept⟩ := exists_loadResources_eq pass.session settings.resources
    exact ⟨kept, by rw [hkept]⟩

/-- The dependencies that are extracted are those of the text on the disk. -/
theorem extractDependencies_run_eq_ok_iff {r : Request} :
    (extractDependencies r).run pass = (.ok (), pass') ↔ ∃ found,
      Dependency.dependencies pass.session.disk (searchOf r) pass.sheet.path
        (pass.sheet.contents.getD "") = .ok found ∧
      pass' = { pass with sheet := { pass.sheet with styleDependencies := some found } } := by
  rw [extractDependencies, run_get_bind]
  constructor
  · intro h
    obtain ⟨found, hfound, h⟩ := exists_run_of_ofResult_bind h
    rw [run_changeSheet] at h
    obtain ⟨-, rfl⟩ := Prod.mk.inj h
    exact ⟨found, hfound, rfl⟩
  · rintro ⟨found, hfound, rfl⟩
    rw [hfound]
    rfl

/-- The entry of a stylesheet with compiled text. -/
def entryFor (sheet : Sheet) (output : Output) : Cache.Entry :=
  ⟨Cache.formatVersion, sheet.path, tag, output.css, output.map, sheet.styleDependencies.getD []⟩

/-- A pass whose stylesheet has taken compiled text, on the disk behind that. -/
def compiled (pass : Pass) (output : Output) (disk : Disk) : Pass :=
  { pass with
    session := { pass.session with disk }
    sheet :=
      { pass.sheet with sourceMap := output.map, contents := some output.css, dependencies := [] } }

/-- Where the cache is used, the disk takes the entry or the part fails; the stylesheet takes the
compiled text in either case. -/
theorem settle_run {directory : String} (hcache : p.cache = some directory)
    (huses : usesCache settings p = true) (output : Output) (pass : Pass) :
    (settle settings p ⟨none, some output⟩).run pass =
      match Cache.writeEntry pass.session.disk directory (entryFor pass.sheet output) with
      | .ok disk => (.ok (), compiled pass output disk)
      | .error failure => (.error failure, compiled pass output pass.session.disk) := by
  simp only [settle, run_changeSheet_bind, huses, hcache, store, run_get_bind, Cache.entryOf,
    Option.getD_some]
  rw [← entryFor]
  cases Cache.writeEntry pass.session.disk directory (entryFor pass.sheet output) with
  | error failure => rfl
  | ok disk => rfl

/-- What the part behind the compile makes of a report: a diagnosis empties the stylesheet and is
recorded, a report of nothing is a failure, and compiled text is taken, with an entry of it where the
cache is used. -/
inductive Settles (settings : Settings) (p : Project) (pass : Pass) :
    Report → Except Failure Unit → Pass → Prop
  /-- There is a diagnosis. -/
  | blamed (diagnosis : Diagnosis) (output : Option Output) :
      Settles settings p pass ⟨some diagnosis, output⟩ (.ok ())
        { pass with
          sheet :=
            { pass.sheet with contents := some "" }.addError
              (diagnostic pass.session.disk pass.sheet.path diagnosis)
          records := pass.records ++ [failedRecord pass.sheet.path diagnosis.message] }
  /-- There is neither a diagnosis nor compiled text. -/
  | void : Settles settings p pass ⟨none, none⟩ (.error .noOutcome) pass
  /-- The compiled text is taken, and the cache is not used. -/
  | taken (output : Output)
      (unused : ∀ directory, p.cache = some directory → usesCache settings p = false) :
      Settles settings p pass ⟨none, some output⟩ (.ok ())
        { pass with
          sheet := { pass.sheet with sourceMap := output.map, contents := some output.css } }
  /-- The disk takes the entry. -/
  | stored {directory : String} {output : Output} {disk : Disk} (cache_eq : p.cache = some directory)
      (uses : usesCache settings p = true)
      (write_eq : Cache.writeEntry pass.session.disk directory (entryFor pass.sheet output) =
        .ok disk) :
      Settles settings p pass ⟨none, some output⟩ (.ok ()) (compiled pass output disk)
  /-- The disk does not take the entry. -/
  | unstored {directory : String} {output : Output} {failure : Failure}
      (cache_eq : p.cache = some directory) (uses : usesCache settings p = true)
      (write_eq : Cache.writeEntry pass.session.disk directory (entryFor pass.sheet output) =
        .error failure) :
      Settles settings p pass ⟨none, some output⟩ (.error failure)
        (compiled pass output pass.session.disk)

/-- Running the part behind the compile settles its report. -/
theorem settles_of_run {report : Report} {result : Except Failure Unit}
    (h : (settle settings p report).run pass = (result, pass')) :
    Settles settings p pass report result pass' := by
  obtain ⟨diagnosis, output⟩ := report
  cases diagnosis with
  | some diagnosis =>
    obtain ⟨rfl, rfl⟩ := Prod.mk.inj h
    exact .blamed diagnosis output
  | none =>
    cases output with
    | none =>
      obtain ⟨rfl, rfl⟩ := Prod.mk.inj h
      exact .void
    | some output =>
      cases huses : usesCache settings p with
      | false =>
        simp only [settle, run_changeSheet_bind, huses, run_pure] at h
        obtain ⟨rfl, rfl⟩ := Prod.mk.inj h
        exact .taken output fun _ _ => huses
      | true =>
        cases hcache : p.cache with
        | none =>
          simp only [settle, run_changeSheet_bind, huses, hcache, run_pure] at h
          obtain ⟨rfl, rfl⟩ := Prod.mk.inj h
          exact .taken output fun directory hsome => by simp [hcache] at hsome
        | some directory =>
          rw [settle_run hcache huses] at h
          split at h
          next disk hwritten =>
            obtain ⟨rfl, rfl⟩ := Prod.mk.inj h
            exact .stored hcache huses hwritten
          next failure hwritten =>
            obtain ⟨rfl, rfl⟩ := Prod.mk.inj h
            exact .unstored hcache huses hwritten

/-- Where the cache is used and the part succeeds, the entry is written. -/
theorem writeEntry_of_settle {directory : String} {output : Output}
    (hcache : p.cache = some directory) (huses : usesCache settings p = true)
    (h : (settle settings p ⟨none, some output⟩).run pass = (.ok (), pass')) :
    Cache.writeEntry pass.session.disk directory (entryFor pass.sheet output) =
      .ok pass'.session.disk := by
  cases settles_of_run h with
  | taken _ hunused => cases huses.symm.trans (hunused directory hcache)
  | stored hcache' _ hwritten =>
    obtain rfl := Option.some.inj (hcache.symm.trans hcache')
    exact hwritten

/-- The part behind the compile keeps the disk, unless it succeeds with compiled text where the
cache is used. -/
theorem disk_or_ok_of_settle {report : Report} {result : Except Failure Unit}
    (h : (settle settings p report).run pass = (result, pass')) :
    pass'.session.disk = pass.session.disk ∨ result = .ok () ∧
      (∃ output, report = ⟨none, some output⟩) ∧ ∃ directory, p.cache = some directory ∧
        usesCache settings p = true := by
  cases settles_of_run h with
  | blamed => exact .inl rfl
  | void => exact .inl rfl
  | taken => exact .inl rfl
  | stored hcache huses => exact .inr ⟨rfl, ⟨_, rfl⟩, _, hcache, huses⟩
  | unstored => exact .inl rfl

end Limited

/-! ## What happens to a pass -/

section Moves

variable {γ : Type} {R : Pass → Pass → Prop} {x : Part α} {f : α → Part β}

/-- A part that moves a pass within a relation, also where it fails. -/
def Moves (R : Pass → Pass → Prop) (part : Part α) : Prop := ∀ pass, R pass (part.run pass).2

/-- Parts in a row move a pass within what each of them does, whatever the first one gives. -/
theorem Moves.bind_of_run (htrans : ∀ ⦃pass mid pass'⦄, R pass mid → R mid pass' → R pass pass')
    (hx : Moves R x) (hf : ∀ a pass mid, x.run pass = (.ok a, mid) → Moves R (f a)) :
    Moves R (x >>= f) := by
  intro pass
  have hfirst := hx pass
  rw [run_bind]
  cases hrun : x.run pass with
  | mk result mid =>
    rw [hrun] at hfirst
    cases result with
    | ok a => exact htrans hfirst (hf a pass mid hrun mid)
    | error failure => exact hfirst

/-- A part that leaves what is seen of a pass as it is, also where it fails. -/
def Keeps {γ : Type} (see : Pass → γ) (part : Part α) : Prop :=
  ∀ pass, see (part.run pass).2 = see pass

/-- Parts in a row keep what each of them keeps. -/
theorem Keeps.bind {see : Pass → γ} (hx : Keeps see x) (hf : ∀ a, Keeps see (f a)) :
    Keeps see (x >>= f) :=
  Moves.bind_of_run (R := fun pass pass' => see pass' = see pass) (fun _ _ _ h h' => h'.trans h) hx
    fun a _ _ _ => hf a

/-- A part that leaves the disk as it is, also where it fails. -/
def KeepsDisk (part : Part α) : Prop :=
  ∀ pass, (part.run pass).2.session.disk = pass.session.disk

variable [Limits]

/-- A relation that holds along the way to a request: records are logged, the stylesheet gets its
text, a compiler is made sure of and resources are read. -/
structure Admits (settings : Settings) (R : Pass → Pass → Prop) : Prop where
  /-- Nothing happens. -/
  refl : ∀ pass, R pass pass
  /-- Something else happens. -/
  trans : ∀ ⦃pass mid pass'⦄, R pass mid → R mid pass' → R pass pass'
  /-- The log changes. -/
  records : ∀ pass records, R pass { pass with records }
  /-- The stylesheet has another text. -/
  contents : ∀ pass contents, R pass { pass with sheet := { pass.sheet with contents } }
  /-- The shared compiler is made. -/
  compiler : ∀ pass shared, pass.own = none → pass.session.sharedCompiler = .ok shared →
    R pass { pass with session := { pass.session with compiler := some shared } }
  /-- The resources are read. -/
  furnished : ∀ pass,
    R pass { pass with session := (pass.session.loadResources settings.resources).2 }

namespace Admits

variable (h : Admits settings R)
include h

theorem bind (hx : Moves R x) (hf : ∀ a, Moves R (f a)) : Moves R (x >>= f) :=
  Moves.bind_of_run h.trans hx fun a _ _ _ => hf a

theorem log (records : List LogRecord) : Moves R (log records) := fun pass => h.records pass _

/-- What is done next may depend on the pass. -/
theorem get_bind {f : Pass → Part β} (hf : ∀ pass, Moves R (f pass)) : Moves R (get >>= f) :=
  h.bind h.refl hf

/-- Loading gives the stylesheet its text. -/
theorem load : Moves R load := by
  intro pass
  rw [Transform.load, run_get_bind]
  cases hload : pass.sheet.load pass.session.disk with
  | error failure => exact h.refl pass
  | ok loaded =>
    obtain ⟨sheet, records⟩ := loaded
    obtain ⟨text, rfl⟩ := exists_contents_of_load hload
    exact h.trans (h.contents pass (some text)) (h.records _ _)

/-- A compiler is there or made. -/
theorem requireCompiler : Moves R requireCompiler := by
  intro pass
  rw [Transform.requireCompiler, run_get_bind]
  split
  next hnone =>
    cases hshared : pass.session.sharedCompiler with
    | error failure => exact h.refl pass
    | ok shared => exact h.compiler pass shared (Option.isNone_iff_eq_none.1 hnone) hshared
  next => exact h.refl pass

/-- Resources are read if there are any. -/
theorem resources : Moves R (resources settings) := by
  intro pass
  rw [resources_run]
  split
  · exact h.refl pass
  · exact h.furnished pass

/-- Extracting the dependencies gives them to the stylesheet. -/
theorem extractDependencies (hdependencies : ∀ pass styleDependencies,
    R pass { pass with sheet := { pass.sheet with styleDependencies } }) (r : Request) :
    Moves R (extractDependencies r) := by
  intro pass
  rw [Transform.extractDependencies, run_get_bind]
  cases Dependency.dependencies pass.session.disk (searchOf r) pass.sheet.path
      (pass.sheet.contents.getD "") with
  | error failure => exact h.refl pass
  | ok found => exact hdependencies pass (some found)

/-- Nothing else happens when a request is made. -/
theorem makeRequest (hdependencies : ∀ pass styleDependencies,
    R pass { pass with sheet := { pass.sheet with styleDependencies } }) (p : Project) :
    Moves R (makeRequest settings p) := by
  refine h.bind h.load fun _ => h.get_bind fun _ => ?_
  split
  · exact h.refl
  · exact h.bind h.requireCompiler fun _ => h.bind h.resources fun _ => h.get_bind fun _ =>
      h.bind (h.extractDependencies hdependencies _) fun _ => h.refl

section Sheet

variable (hsheet : ∀ (pass : Pass) (sheet : Sheet), sheet.path = pass.sheet.path →
  R pass { pass with sheet })
include hsheet

variable [Cache.Entry.Reader]

/-- The stylesheet may be restored, as one of the same source. -/
theorem lookUp (p : Project) : Moves R (lookUp settings p) := by
  unfold Transform.lookUp
  split
  · intro pass
    rw [consult, run_get_bind]
    cases hrestore : Cache.restore pass.session.disk p pass.sheet tag with
    | error failure => exact h.refl pass
    | ok restored => exact h.trans (hsheet pass _ (path_of_restore hrestore)) (h.records _ _)
  · exact h.refl

/-- Where the stylesheet may become any of the same source, this holds for all that is done before
the compile. -/
theorem prepare (p : Project) : Moves R (prepare settings p) := by
  refine h.bind (fun pass => hsheet pass _ (path_needRuntime pass.sheet _)) fun _ =>
    h.bind (h.lookUp hsheet p) fun hit => h.bind (fun pass => hsheet pass _ rfl) fun _ => ?_
  split
  · exact h.get_bind fun _ => h.bind (h.log _) fun _ => h.refl
  · exact h.makeRequest (fun pass _ => hsheet pass _ rfl) p

end Sheet

end Admits

/-- What is seen of a stylesheet, unless it is its text, stays the same. -/
theorem admits_sheet {see : Sheet → γ} (settings : Settings)
    (hcontents : ∀ (sheet : Sheet) contents, see { sheet with contents } = see sheet) :
    Admits settings fun pass pass' => see pass'.sheet = see pass.sheet where
  refl _ := rfl
  trans _ _ _ h h' := h'.trans h
  records _ _ := rfl
  contents pass := hcontents pass.sheet
  compiler _ _ _ _ := rfl
  furnished _ := rfl

/-- The disk stays the same. -/
theorem admits_disk (settings : Settings) :
    Admits settings fun pass pass' => pass'.session.disk = pass.session.disk where
  refl _ := rfl
  trans _ _ _ h h' := h'.trans h
  records _ _ := rfl
  contents _ _ := rfl
  compiler _ _ _ _ := rfl
  furnished pass := by
    obtain ⟨kept, hkept⟩ := exists_loadResources_eq pass.session settings.resources
    rw [hkept]

/-- The part before the compile keeps the disk, whether it makes a request, restores the stylesheet
or fails. -/
theorem keepsDisk_prepare [Cache.Entry.Reader] (settings : Settings) (p : Project) :
    KeepsDisk (prepare settings p) :=
  (admits_disk settings).prepare (fun _ _ _ => rfl) p

/-- What comes before the compile comes on the same disk. -/
theorem disk_of_prepare [Cache.Entry.Reader] {made : Except Failure (Option Request)}
    (h : (prepare settings p).run pass = (made, pass')) : pass'.session.disk = pass.session.disk := by
  have hkept := keepsDisk_prepare settings p pass
  rwa [h] at hkept

end Moves

end Transform

end StyleBundle
