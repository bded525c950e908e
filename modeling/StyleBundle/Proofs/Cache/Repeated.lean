import StyleBundle.Proofs.Cache.Latest
import StyleBundle.Proofs.Cache.Reuse
import StyleBundle.Proofs.Transform.Stop
import StyleBundle.Proofs.Transform.Verdict

/-!
# One stylesheet, pass after pass

A host may take the same stylesheet through any number of passes, with anything edited in between.
Each pass writes some of the stylesheet's fields and leaves the others as the passes before it have
left them. This module says which fields a pass writes, and what the others hold in the end.
-/

namespace StyleBundle

namespace Transform

variable {pass pass' mid : Pass} {settings : Settings} {p : Project}
  {made : Except Failure (Option Request)} {entry : Cache.Entry}

/-! ## Passes that use an entry -/

/-- A pass that may use an entry restores the stylesheet from it and does nothing else. -/
theorem exists_transform_run_of_hits (h : Hits settings p pass entry) : ∃ pass',
    (transform settings p).run pass = (.ok (), pass') ∧ pass'.sheet.contents = some entry.contents ∧
      pass'.sheet.sourceMap = entry.sourceMap ∧ pass'.sheet.cached = true ∧
      pass'.sheet.styleDependencies = pass.sheet.styleDependencies := by
  obtain ⟨huses, directory, hcache, ⟨records, hvalid⟩, hread⟩ := h
  obtain ⟨modules, records', hprepare⟩ := exists_prepare_run_of_isValid hcache huses hvalid hread
  exact ⟨_, run_bind_of_ok hprepare _, rfl, rfl, rfl, rfl⟩

/-! ## The mark of the cache and the dependencies -/

/-- What the parts behind the request leave of a stylesheet: its source, the mark of the cache and
its dependencies. -/
def decided (sheet : Sheet) : String × Bool × Option (List String) :=
  (sheet.path, sheet.cached, sheet.styleDependencies)

/-- Settling a report leaves what is decided. -/
theorem keeps_settle (report : Report) :
    Keeps (fun pass => decided pass.sheet) (settle settings p report) := by
  intro pass
  obtain ⟨result, pass', hsettle⟩ : ∃ result pass',
      (settle settings p report).run pass = (result, pass') := ⟨_, _, rfl⟩
  rw [hsettle]
  cases settles_of_run hsettle <;> rfl

/-- A whole pass leaves what the part before the compile has decided. -/
theorem decided_of_prepare (hprepare : (prepare settings p).run pass = (made, mid)) :
    decided ((transform settings p).run pass).2.sheet = decided mid.sheet := by
  rw [transform, run_bind, hprepare]
  rcases made with failure | request
  · rfl
  · cases request with
    | none => rfl
    | some request =>
      have hkeeps : Keeps (fun pass => decided pass.sheet)
          (submit request >>= settle settings p) :=
        Keeps.bind (keeps_submit request decided) keeps_settle
      exact hkeeps mid

/-- A pass leaves the stylesheet to its source. -/
theorem path_transform (settings : Settings) (p : Project) (pass : Pass) :
    ((transform settings p).run pass).2.sheet.path = pass.sheet.path := by
  have hdecided : decided ((transform settings p).run pass).2.sheet =
      decided ((prepare settings p).run pass).2.sheet := decided_of_prepare rfl
  have hlasting := lasting_prepare settings p pass
  rw [(Prod.mk.inj hdecided).1, (Prod.mk.inj hlasting).1, path_needRuntime]

/-- A pass that may not use an entry leaves the mark of the cache. -/
theorem cached_of_not_hits (hmiss : ∀ entry, ¬ Hits settings p pass entry) :
    ((transform settings p).run pass).2.sheet.cached = pass.sheet.cached := by
  obtain ⟨made, mid, hprepare⟩ : ∃ made mid, (prepare settings p).run pass = (made, mid) :=
    ⟨_, _, rfl⟩
  rw [(Prod.mk.inj (Prod.mk.inj (decided_of_prepare hprepare)).2).1]
  obtain ⟨modules, -, hprepares⟩ := prepares_of_run hprepare
  cases hprepares with
  | restored entry _ hhits => exact absurd hhits (hmiss entry)
  | missed records _ hmake =>
    have hkept : Keeps (fun pass => pass.sheet.cached) (makeRequest settings p) :=
      (admits_sheet settings fun _ _ => rfl).makeRequest (fun _ _ => rfl) p
    have hsame := hkept (noted pass modules (pass.records ++ records))
    rw [hmake] at hsame
    exact hsame
  | refused => rfl

/-- A part that leaves the dependencies, unless it makes a request. -/
def KeepsUnmade (part : Part (Option Request)) : Prop :=
  ∀ pass, (∀ request, (part.run pass).1 ≠ .ok (some request)) →
    (part.run pass).2.sheet.styleDependencies = pass.sheet.styleDependencies

/-- A part that leaves the dependencies may stand in front. -/
theorem KeepsUnmade.bind {α : Type} {x : Part α} {f : α → Part (Option Request)}
    (hx : Keeps (fun pass => pass.sheet.styleDependencies) x) (hf : ∀ a, KeepsUnmade (f a)) :
    KeepsUnmade (x >>= f) := by
  intro pass hunmade
  have hkept := hx pass
  rw [run_bind] at hunmade ⊢
  cases hrun : x.run pass with
  | mk outcome mid =>
    rw [hrun] at hkept hunmade
    cases outcome with
    | ok a => exact (hf a mid hunmade).trans hkept
    | error failure => exact hkept

/-- Only a request that is made brings dependencies. -/
theorem keepsUnmade_makeRequest : KeepsUnmade (makeRequest settings p) := by
  have hadmits : Admits settings fun pass pass' =>
      pass'.sheet.styleDependencies = pass.sheet.styleDependencies :=
    admits_sheet settings fun _ _ => rfl
  refine .bind hadmits.load fun _ => .bind (fun _ => rfl) fun _ => ?_
  split
  · exact fun _ _ => rfl
  · refine .bind hadmits.requireCompiler fun _ => .bind hadmits.resources fun given =>
      .bind (fun _ => rfl) fun loaded => ?_
    -- The extraction is the last part that may fail: behind it there is a request.
    intro pass hunmade
    rw [run_bind] at hunmade ⊢
    cases hextract : (extractDependencies (Request.build p loaded.sheet settings
        (Request.projectMacros p settings.macros) given)).run pass with
    | mk outcome mid =>
      rw [hextract] at hunmade
      cases outcome with
      | ok _ => exact absurd rfl (hunmade _)
      | error failure => rw [(extractDependencies_run_eq_error_iff.1 hextract).1]

/-- A pass that makes a request and succeeds has got a report, which tells what the stylesheet
holds: compiled text and its map, or no text and the map that it held before. -/
theorem exists_report_of_prepare {request : Request}
    (hprepare : (prepare settings p).run pass = (.ok (some request), mid))
    (hrun : (transform settings p).run pass = (.ok (), pass')) :
    ∃ first later, reportsOf settings p pass = first :: later ∧
      (first.diagnosis.isSome = true →
        pass'.sheet.contents = some "" ∧ pass'.sheet.sourceMap = pass.sheet.sourceMap) ∧
      (first.diagnosis = none → ∃ output, first.output = some output ∧
        pass'.sheet.contents = some output.css ∧ pass'.sheet.sourceMap = output.map) := by
  obtain ⟨-, text, given, found, -, -, hawaits⟩ := exists_makes_of_prepare hprepare
  have hhead := head?_reportsOf hprepare
  rw [transform, run_bind_of_ok hprepare] at hrun
  obtain ⟨report, sent, hsubmit, hsettle⟩ := exists_run_of_bind hrun
  have hsent := submits_of_run hsubmit
  rw [← hsent.answer_eq] at hhead
  obtain ⟨later, hreports⟩ := List.head?_eq_some_iff.1 hhead
  refine ⟨report, later, hreports, ?_⟩
  cases settles_of_run hsettle with
  | blamed =>
    refine ⟨fun _ => ⟨rfl, ?_⟩, by simp⟩
    exact (congrArg Sheet.sourceMap hsent.sheet).trans hawaits.sourceMap
  | taken output => exact ⟨by simp, fun _ => ⟨output, rfl, rfl, rfl⟩⟩
  | @stored _ output => exact ⟨by simp, fun _ => ⟨output, rfl, rfl, rfl⟩⟩

end Transform

namespace Cache

open Transform (Pass Hits prepare transform searchOf reportsOf)

namespace Visit

variable {v : Visit} {mid : Pass} {request : Request}

/-- The stylesheet behind the pass, however it ends. -/
def left (v : Visit) : Sheet := ((transform v.settings v.project).run v.pass).2.sheet

/-- The dependencies that the pass extracts. There are none if it ends before that. -/
def extracted (v : Visit) : Option (List String) :=
  match (prepare v.settings v.project).run v.pass with
  | (.ok (some request), mid) =>
    (Dependency.dependencies v.pass.session.disk (searchOf request) v.pass.sheet.path
      (mid.sheet.contents.getD "")).toOption
  | _ => none

/-- A pass that makes a request has extracted the dependencies that the stylesheet has then. -/
theorem exists_extracted
    (hprepare : (prepare v.settings v.project).run v.pass = (.ok (some request), mid)) :
    ∃ found, v.extracted = some found ∧ mid.sheet.styleDependencies = some found := by
  obtain ⟨-, text, given, found, hmakes, rfl, hawaits⟩ :=
    Transform.exists_makes_of_prepare hprepare
  refine ⟨found, ?_, hawaits.dependencies⟩
  simp only [extracted, hprepare, hawaits.contents, Option.getD_some, hmakes.dependencies]
  rfl

/-- A stylesheet holds the dependencies that the pass extracts, or else those that it held before.
-/
theorem styleDependencies_left (v : Visit) :
    v.left.styleDependencies = v.extracted.or v.pass.sheet.styleDependencies := by
  obtain ⟨made, mid, hprepare⟩ : ∃ made mid,
      (prepare v.settings v.project).run v.pass = (made, mid) := ⟨_, _, rfl⟩
  rw [left, (Prod.mk.inj (Prod.mk.inj (Transform.decided_of_prepare hprepare)).2).2]
  by_cases hmade : ∃ request, made = .ok (some request)
  · obtain ⟨request, rfl⟩ := hmade
    obtain ⟨found, hextracted, hfound⟩ := exists_extracted hprepare
    rw [hextracted, hfound, Option.some_or]
  · have hunmade : ∀ request, made ≠ .ok (some request) := fun request h => hmade ⟨request, h⟩
    have hnone : v.extracted = none := by
      rw [extracted, hprepare]
      split
      next request mid heq => exact absurd (Prod.mk.inj heq).1 (hunmade request)
      next => rfl
    rw [hnone, Option.none_or]
    obtain ⟨modules, -, hprepares⟩ := Transform.prepares_of_run hprepare
    cases hprepares with
    | restored => rfl
    | missed records _ hmake =>
      have hkept := Transform.keepsUnmade_makeRequest
        (Transform.noted v.pass modules (v.pass.records ++ records)) (by rw [hmake]; exact hunmade)
      rw [hmake] at hkept
      exact hkept
    | refused => rfl

end Visit

/-- A stylesheet that is taken through some passes, the latest first. Each of them has settings, a
project, a session and a compiler of its own, so that anything may have been edited in between. -/
inductive Passes (first : Sheet) : List Visit → Sheet → Prop
  /-- No pass has been made. -/
  | start : Passes first [] first
  /-- One more pass, however it ends. -/
  | next {visits : List Visit} {sheet : Sheet} {v : Visit} (h : Passes first visits sheet)
      (hsheet : v.pass.sheet = sheet) : Passes first (v :: visits) v.left

variable {visits : List Visit} {first sheet : Sheet} {v : Visit} {pass' : Pass}

/-- The stylesheet stays that of its source. -/
theorem Passes.path (h : Passes first visits sheet) : sheet.path = first.path := by
  induction h with
  | start => rfl
  | @next visits sheet v _ hsheet ih => rw [Visit.left, Transform.path_transform, hsheet, ih]

/-- The stylesheet holds the dependencies that were extracted last. -/
theorem Passes.styleDependencies (h : Passes first visits sheet) :
    sheet.styleDependencies = (visits.findSome? Visit.extracted).or first.styleDependencies := by
  induction h with
  | start => rfl
  | @next visits sheet v _ hsheet ih =>
    rw [v.styleDependencies_left, hsheet, ih, List.findSome?_cons]
    cases v.extracted with
    | none => rfl
    | some found => rfl

/-- As long as no pass may use an entry, the stylesheet keeps the mark of the cache. -/
theorem Passes.cached (h : Passes first visits sheet)
    (hmiss : ∀ v ∈ visits, ∀ entry, ¬ Hits v.settings v.project v.pass entry) :
    sheet.cached = first.cached := by
  induction h with
  | start => rfl
  | @next visits sheet v _ hsheet ih =>
    rw [Visit.left, Transform.cached_of_not_hits (hmiss v List.mem_cons_self), hsheet]
    exact ih fun v hmem => hmiss v (List.mem_cons_of_mem _ hmem)

/-- What the fields of a stylesheet hold behind any row of passes and one more that succeeds. If the
last pass has used an entry, the stylesheet is marked, holds the text and the map of the entry, and
the dependencies that were extracted last in the row. If the last pass has come to the compiler, the
stylesheet is not marked, unless a pass before has used an entry, and it holds the dependencies that
this pass has extracted; with compiled text, it holds that and its map, and with a diagnosis, it is
empty and has no map, unless it had one before. -/
theorem fields_of_passes {path bundlePath : String}
    (h : Passes (.fresh path bundlePath) visits sheet) (hsheet : v.pass.sheet = sheet)
    (hrun : (transform v.settings v.project).run v.pass = (.ok (), pass')) :
    (∀ entry, Hits v.settings v.project v.pass entry →
      pass'.sheet.cached = true ∧ pass'.sheet.contents = some entry.contents ∧
      pass'.sheet.sourceMap = entry.sourceMap ∧
      pass'.sheet.styleDependencies = visits.findSome? Visit.extracted) ∧
    ∀ request mid, (prepare v.settings v.project).run v.pass = (.ok (some request), mid) →
      ((∀ earlier ∈ visits, ∀ entry,
        ¬ Hits earlier.settings earlier.project earlier.pass entry) →
        pass'.sheet.cached = false) ∧
      ∃ report later found, reportsOf v.settings v.project v.pass = report :: later ∧
        v.extracted = some found ∧ pass'.sheet.styleDependencies = some found ∧
        (report.diagnosis = none → ∃ output, report.output = some output ∧
          pass'.sheet.contents = some output.css ∧ pass'.sheet.sourceMap = output.map) ∧
        (report.diagnosis.isSome = true → pass'.sheet.contents = some "" ∧
          (sheet.sourceMap = none → pass'.sheet.sourceMap = none)) := by
  constructor
  · intro entry hhits
    obtain ⟨done, hdone, hcontents, hmap, hcached, hdependencies⟩ :=
      Transform.exists_transform_run_of_hits hhits
    obtain ⟨-, rfl⟩ := Prod.mk.inj (hdone.symm.trans hrun)
    refine ⟨hcached, hcontents, hmap, ?_⟩
    rw [hdependencies, hsheet, h.styleDependencies]
    exact Option.or_none
  · intro request mid hprepare
    have hdecided := Transform.decided_of_prepare hprepare
    rw [hrun] at hdecided
    have hdependencies := (Prod.mk.inj (Prod.mk.inj hdecided).2).2
    obtain ⟨found, hextracted, hfound⟩ := Visit.exists_extracted hprepare
    obtain ⟨report, later, hreports, hblamed, hcompiled⟩ :=
      Transform.exists_report_of_prepare hprepare hrun
    constructor
    · intro hmiss
      have hnow : ∀ entry, ¬ Hits v.settings v.project v.pass entry := by
        rintro entry ⟨huses, directory, hcache, ⟨records, hvalid⟩, hread⟩
        obtain ⟨modules, records', hprepare'⟩ :=
          Transform.exists_prepare_run_of_isValid hcache huses hvalid hread
        cases hprepare.symm.trans hprepare'
      have hkept := Transform.cached_of_not_hits hnow
      rw [hrun] at hkept
      rw [hkept, hsheet, h.cached hmiss]
      rfl
    · refine ⟨report, later, found, hreports, hextracted, hdependencies.trans hfound, hcompiled, ?_⟩
      intro hdiagnosis
      obtain ⟨hempty, hmap⟩ := hblamed hdiagnosis
      exact ⟨hempty, fun hnone => hmap.trans (hsheet ▸ hnone)⟩

/-- Once the first pass has stored its entry, every pass over the source may use it. -/
theorem hits_pair {d : Disk} (hstored : writeEntry pair "/c" pairEntry = .ok d) {pass : Pass}
    (hdisk : pass.session.disk = d) (hpath : pass.sheet.path = "/s/main.scss") :
    Hits .default cachingProject pass pairEntry := by
  obtain ⟨-, -, -, hstores⟩ := exists_firstPass_run hstored
  have hread : readEntry d "/c" pairEntry.path pairEntry.tag = .ok pairEntry :=
    readEntry_of_writeEntry wellFormed_pair pairEntry rfl hstored
  have hvalid := isValid_of_stores_pair rfl hstores
  refine ⟨rfl, "/c", rfl, ?_⟩
  rw [hdisk, hpath]
  exact ⟨⟨[], hvalid⟩, hread⟩

/-- The first pass extracts the dependencies of the stylesheet. -/
theorem extracted_firstVisit : firstVisit.extracted = some ["/s/_a.scss"] := by
  obtain ⟨mid, hprepare, hawaits⟩ :=
    Transform.exists_prepare_run makes_firstPass (misses_pair .default)
  have hmade : (prepare firstVisit.settings firstVisit.project).run firstVisit.pass =
      (.ok (some _), mid) := hprepare
  obtain ⟨found, hextracted, hfound⟩ := Visit.exists_extracted hmade
  rw [hextracted, ← hfound]
  exact hawaits.dependencies

/-- A stylesheet that is compiled in one pass and restored in the next one holds the dependencies of
the compile. -/
theorem fields_of_passes_pair : ∃ (v : Visit) (pass' : Pass),
    Passes (.fresh "/s/main.scss" "main.scss") [firstVisit] v.pass.sheet ∧
    (transform v.settings v.project).run v.pass = (.ok (), pass') ∧
    Hits v.settings v.project v.pass pairEntry ∧ pass'.sheet.cached = true ∧
    pass'.sheet.contents = some "" ∧ pass'.sheet.styleDependencies = some ["/s/_a.scss"] := by
  obtain ⟨d, hstored⟩ := exists_writeEntry_pair
  obtain ⟨first, hfirst, hdisk, -⟩ := exists_firstPass_run hstored
  have hleft : firstVisit.left = first.sheet := congrArg (fun run => run.2.sheet) hfirst
  have hpasses : Passes (.fresh "/s/main.scss" "main.scss") [firstVisit] first.sheet :=
    hleft ▸ .next .start rfl
  let v : Visit := ⟨.default, cachingProject, first⟩
  have hhits : Hits v.settings v.project v.pass pairEntry := hits_pair hstored hdisk hpasses.path
  obtain ⟨pass', hrun, -⟩ := Transform.exists_transform_run_of_hits hhits
  have hsheet : v.pass.sheet = first.sheet := rfl
  obtain ⟨hrestored, -⟩ := fields_of_passes hpasses hsheet hrun
  obtain ⟨hcached, hcontents, -, hdependencies⟩ := hrestored pairEntry hhits
  refine ⟨v, pass', hpasses, hrun, hhits, hcached, hcontents, hdependencies.trans ?_⟩
  simp [extracted_firstVisit]

/-- A fresh stylesheet that is restored does not hold the dependencies of its entry. -/
theorem exists_hit_without_dependencies : ∃ (v : Visit) (pass' : Pass),
    v.pass.sheet = .fresh "/s/main.scss" "main.scss" ∧
    (transform v.settings v.project).run v.pass = (.ok (), pass') ∧
    Hits v.settings v.project v.pass pairEntry ∧ pairEntry.dependencies = ["/s/_a.scss"] ∧
    pass'.sheet.styleDependencies = none := by
  obtain ⟨d, hstored⟩ := exists_writeEntry_pair
  let v : Visit :=
    ⟨.default, cachingProject, { firstPass with session := { firstPass.session with disk := d } }⟩
  have hhits : Hits v.settings v.project v.pass pairEntry := hits_pair hstored rfl rfl
  obtain ⟨pass', hrun, -, -, -, hdependencies⟩ := Transform.exists_transform_run_of_hits hhits
  exact ⟨v, pass', rfl, hrun, hhits, rfl, hdependencies⟩

end Cache

end StyleBundle
