import StyleBundle.Proofs.Cache.History
import StyleBundle.Proofs.Transform.Callback

/-!
# The verdict of a pass

A pass has many ends, and most of them are failures somewhere between two changes of the stylesheet.
Whichever it comes to, a diagnosis is recorded exactly if the first report of the compiler is one,
the dependencies on their way to the cache are gone again, and the runtime module is noted once.
-/

namespace StyleBundle.Transform

variable {γ : Type} {pass pass' mid : Pass} {settings : Settings}
  {p : Project} {request : Request} {report : Report} {result : Except Failure Unit}

/-! ## What the parts of a pass keep -/

/-- Submitting a request keeps the stylesheet. -/
theorem keeps_submit (request : Request) (see : Sheet → γ) :
    Keeps (fun pass => see pass.sheet) (submit request) := by
  intro pass
  exact congrArg see (submits request pass).sheet

/-- What the parts before the compile leave of a stylesheet: its source, its diagnostics, its
dependencies on their way to the cache and its runtime modules. -/
def lasting (sheet : Sheet) : String × List String × List String × List String :=
  (sheet.path, sheet.errors, sheet.dependencies, sheet.runtimeModules)

/-- Before the compile, no more than the runtime module is noted. -/
theorem lasting_prepare (settings : Settings) (p : Project) (pass : Pass) :
    lasting ((prepare settings p).run pass).2.sheet =
      lasting (pass.sheet.needRuntime runtimeModule) := by
  have hmake : Keeps (fun pass => lasting pass.sheet) (makeRequest settings p) :=
    (admits_sheet settings fun _ _ => rfl).makeRequest (fun _ _ => rfl) p
  obtain ⟨made, mid, hprepare⟩ : ∃ made mid, (prepare settings p).run pass = (made, mid) :=
    ⟨_, _, rfl⟩
  obtain ⟨modules, hmodules, hprepares⟩ := prepares_of_run hprepare
  rw [hprepare, hmodules]
  cases hprepares with
  | restored => rfl
  | missed records _ hrun =>
    have hkept := hmake (noted pass modules (pass.records ++ records))
    rw [hrun] at hkept
    exact hkept
  | refused => rfl

/-! ## What a report makes of a stylesheet -/

/-- What a verdict makes of a pass: a diagnosis ends it well, empties the stylesheet and is recorded
with its place; without one, none is recorded. -/
structure Judged (d : Disk) (sheet : Sheet) (verdict : Option Diagnosis)
    (result : Except Failure Unit) (after : Sheet) : Prop where
  /-- A diagnosis is no failure, and it is recorded. -/
  blamed : ∀ diagnosis, verdict = some diagnosis → result = .ok () ∧ after.contents = some "" ∧
    after.errors = sheet.errors ++ [diagnostic d sheet.path diagnosis]
  /-- Nothing else is recorded. -/
  cleared : verdict = none → after.errors = sheet.errors

/-- A stylesheet is judged without a verdict if it keeps its diagnostics. -/
theorem Judged.of_errors {d : Disk} {sheet after : Sheet} (h : after.errors = sheet.errors) :
    Judged d sheet none result after where
  blamed _ hnone := absurd hnone (Option.some_ne_none _).symm
  cleared _ := h

/-- The part behind the compile is judged by the diagnosis of its report, leaves no dependencies on
their way to the cache, and notes no runtime modules. -/
theorem judged_of_settle (hclean : pass.sheet.dependencies = [])
    (h : (settle settings p report).run pass = (result, pass')) :
    Judged pass.session.disk pass.sheet report.diagnosis result pass'.sheet ∧
      pass'.sheet.dependencies = [] ∧ pass'.sheet.runtimeModules = pass.sheet.runtimeModules := by
  cases settles_of_run h with
  | blamed diagnosis =>
    refine ⟨⟨fun other hsome => ?_, fun hnone => absurd hnone (Option.some_ne_none _)⟩, hclean, rfl⟩
    obtain rfl := Option.some.inj hsome
    exact ⟨rfl, rfl, rfl⟩
  | void => exact ⟨.of_errors rfl, hclean, rfl⟩
  | taken => exact ⟨.of_errors rfl, hclean, rfl⟩
  | stored => exact ⟨.of_errors rfl, rfl, rfl⟩
  | unstored => exact ⟨.of_errors rfl, rfl, rfl⟩

/-- The reports of the compiler in a pass, in order. There is none if the pass ends before the
compile, and none if the compiler fails. -/
def reportsOf (settings : Settings) (p : Project) (pass : Pass) : List Report :=
  match (prepare settings p).run pass with
  | (.ok (some request), mid) =>
    match (compilerOf mid).bind fun compiler => compiler.reports mid.session.disk request with
    | .ok (first, later) => first :: later
    | .error _ => []
  | _ => []

/-- Without the other reports, the first one is left. -/
theorem reportsOf_once (settings : Settings) (p : Project) (pass : Pass) :
    reportsOf settings p pass.once = (reportsOf settings p pass).take 1 := by
  have honce : HearsOnce (prepare settings p) := hearsOnce_prepare
  rw [reportsOf, reportsOf, honce pass]
  cases (prepare settings p).run pass with
  | mk made mid =>
    rcases made with failure | _ | request
    · rfl
    · rfl
    · simp only [compilerOf_once]
      cases compilerOf mid with
      | error failure => rfl
      | ok compiler =>
        have hreports := compiler.reports_once mid.session.disk request
        simp only [Except.map, Except.bind, Pass.once, Session.once, hreports]
        cases compiler.reports mid.session.disk request with
        | error failure => rfl
        | ok reports => rfl

/-- The diagnosis of the first report, if it has one. -/
def verdictOf (settings : Settings) (p : Project) (pass : Pass) : Option Diagnosis :=
  (reportsOf settings p pass).head?.bind Report.diagnosis

/-- A pass that gets a report goes on with the first one. -/
theorem head?_reportsOf (hprepare : (prepare settings p).run pass = (.ok (some request), mid)) :
    (reportsOf settings p pass).head? = (((compilerOf mid).bind fun compiler =>
      (compiler.render mid.session.disk request).report)).toOption := by
  simp only [reportsOf, hprepare]
  cases compilerOf mid with
  | error failure => rfl
  | ok compiler =>
    simp only [Except.bind, Compiler.report_render]
    cases compiler.reports mid.session.disk request with
    | error failure => rfl
    | ok reports => rfl

/-- A pass that makes no request has no verdict. -/
theorem verdictOf_eq_none {made : Except Failure (Option Request)}
    (hprepare : (prepare settings p).run pass = (made, mid))
    (hnone : ∀ request, made ≠ .ok (some request)) : verdictOf settings p pass = none := by
  rw [verdictOf, reportsOf, hprepare]
  split
  next request mid heq => exact absurd (Prod.mk.inj heq).1 (hnone request)
  next => rfl

/-- A whole pass is judged by the first report, leaves no dependencies on their way to the cache,
and notes the runtime module. -/
theorem judged_of_transform (hclean : pass.sheet.dependencies = [])
    (h : (transform settings p).run pass = (result, pass')) :
    Judged pass.session.disk pass.sheet (verdictOf settings p pass) result pass'.sheet ∧
      pass'.sheet.dependencies = [] ∧
      pass'.sheet.runtimeModules = (pass.sheet.needRuntime runtimeModule).runtimeModules := by
  have hlasting {made : Except Failure (Option Request)} {mid : Pass}
      (hprepare : (prepare settings p).run pass = (made, mid)) :
      mid.sheet.path = pass.sheet.path ∧ mid.sheet.errors = pass.sheet.errors ∧
        mid.sheet.dependencies = [] ∧
        mid.sheet.runtimeModules = (pass.sheet.needRuntime runtimeModule).runtimeModules := by
    obtain ⟨modules, hmodules⟩ := needRuntime_eq pass.sheet runtimeModule
    have hkept := lasting_prepare settings p pass
    rw [hprepare, hmodules] at hkept
    rw [hmodules]
    simpa [lasting, hclean] using hkept
  cases transform_run_eq_iff.1 h with
  | failed hprepare =>
    obtain ⟨-, herrors, hdependencies, hruntime⟩ := hlasting hprepare
    rw [verdictOf_eq_none hprepare (by simp)]
    exact ⟨.of_errors herrors, hdependencies, hruntime⟩
  | unasked hprepare =>
    obtain ⟨-, herrors, hdependencies, hruntime⟩ := hlasting hprepare
    rw [verdictOf_eq_none hprepare (by simp)]
    exact ⟨.of_errors herrors, hdependencies, hruntime⟩
  | unanswered hprepare hsubmit =>
    obtain ⟨-, herrors, hdependencies, hruntime⟩ := hlasting hprepare
    have hsent := submits_of_run hsubmit
    rw [verdictOf, head?_reportsOf hprepare, ← hsent.answer_eq, hsent.sheet]
    exact ⟨.of_errors herrors, hdependencies, hruntime⟩
  | answered hprepare hsubmit hsettle =>
    obtain ⟨hpath, herrors, hdependencies, hruntime⟩ := hlasting hprepare
    have hsent := submits_of_run hsubmit
    have hjudged := judged_of_settle (by rw [hsent.sheet, hdependencies]) hsettle
    rw [hsent.sheet, hsent.disk, disk_of_prepare hprepare] at hjudged
    obtain ⟨⟨hblamed, hcleared⟩, hempty, hsame⟩ := hjudged
    rw [herrors, hpath] at hblamed
    rw [herrors] at hcleared
    rw [verdictOf, head?_reportsOf hprepare, ← hsent.answer_eq]
    exact ⟨⟨hblamed, hcleared⟩, hempty, hsame.trans hruntime⟩

/-- The law of a pass over a stylesheet without dependencies on their way to the cache. Only the
first report of the compiler counts: the pass ends in the same way and leaves the same without the
others. If the first report has a diagnosis, the pass succeeds, the stylesheet is empty, and one
diagnostic is recorded behind the old ones; its place is in the source for the inline text, and in
the absolute path of any other file. In all other cases, whether the pass succeeds or fails, no
diagnostic is recorded. In all cases there are no dependencies on their way to the cache again, and
the runtime module is noted if it was not. -/
theorem transform_verdict (hclean : pass.sheet.dependencies = []) : ∃ result pass',
    (transform settings p).run pass = (result, pass') ∧
    reportsOf settings p pass.once = (reportsOf settings p pass).take 1 ∧
    (transform settings p).run pass.once = (result, pass'.once) ∧
    (∀ first later diagnosis, reportsOf settings p pass = first :: later →
      first.diagnosis = some diagnosis →
      result = .ok () ∧ pass'.sheet.contents = some "" ∧
      pass'.sheet.errors = pass.sheet.errors ++ [diagnosis.message ++ "\n      at " ++
        (if diagnosis.file = "stdin" then pass.sheet.path
          else pass.session.disk.absolute diagnosis.file) ++
        ":" ++ toString diagnosis.line ++ ":" ++ toString diagnosis.column]) ∧
    ((∀ first later, reportsOf settings p pass = first :: later → first.diagnosis = none) →
      pass'.sheet.errors = pass.sheet.errors) ∧
    pass'.sheet.dependencies = [] ∧
    pass'.sheet.runtimeModules =
      if runtimeModule ∈ pass.sheet.runtimeModules then pass.sheet.runtimeModules
      else pass.sheet.runtimeModules ++ [runtimeModule] := by
  obtain ⟨result, pass', hrun⟩ : ∃ result pass',
      (transform settings p).run pass = (result, pass') := ⟨_, _, rfl⟩
  have honce : HearsOnce (transform settings p) := hearsOnce_transform
  obtain ⟨⟨hblamed, hcleared⟩, hempty, hruntime⟩ := judged_of_transform hclean hrun
  refine ⟨result, pass', hrun, reportsOf_once settings p pass, by rw [honce pass, hrun], ?_, ?_,
    hempty, ?_⟩
  · intro first later diagnosis hreports hdiagnosis
    exact hblamed diagnosis (by rw [verdictOf, hreports]; exact hdiagnosis)
  · intro hnone
    apply hcleared
    rw [verdictOf]
    cases hreports : reportsOf settings p pass with
    | nil => rfl
    | cons first later => exact hnone first later hreports
  · rw [hruntime, Sheet.needRuntime]
    split <;> rfl

/-- A compiler that finds something wrong with everything, and then makes empty text of it. -/
def blamingCompiler : Compiler :=
  .fresh (.host fun _ _ _ =>
    ⟨none, .ok (⟨some (.placeless "no"), none⟩, [⟨none, some ⟨"", none⟩⟩])⟩)

/-- A pass with such a compiler. -/
def blamedPass : Pass := { Cache.firstPass with own := some blamingCompiler }

/-- The compiler reports twice. -/
theorem reportsOf_blamedPass : reportsOf .default Cache.cachingProject blamedPass =
    [⟨some (.placeless "no"), none⟩, ⟨none, some ⟨"", none⟩⟩] := by
  have hfirst := Cache.makes_firstPass
  have hmakes : Makes .default Cache.cachingProject blamedPass "@import 'a';" none
      ["/s/_a.scss"] :=
    ⟨hfirst.loads, hfirst.nonempty, ⟨blamingCompiler, rfl⟩, hfirst.resources, hfirst.dependencies⟩
  obtain ⟨mid, hprepare, hawaits⟩ := exists_prepare_run hmakes (Cache.misses_pair .default)
  have hcompiler : compilerOf mid = .ok blamingCompiler := hawaits.compiler
  simp only [reportsOf, hprepare, hcompiler]
  rfl

/-- The first of the two reports is recorded, and the pass succeeds. -/
theorem transform_verdict_blamedPass : blamedPass.sheet.dependencies = [] ∧ ∃ pass',
    (transform .default Cache.cachingProject).run blamedPass = (.ok (), pass') ∧
    (transform .default Cache.cachingProject).run blamedPass.once = (.ok (), pass'.once) ∧
    pass'.sheet.contents = some "" ∧ pass'.sheet.errors = ["no\n      at /s/main.scss:0:0"] ∧
    pass'.sheet.dependencies = [] ∧ pass'.sheet.runtimeModules = ["fuse-box-css"] := by
  have hclean : blamedPass.sheet.dependencies = [] := rfl
  obtain ⟨result, pass', hrun, -, honce, hblamed, -, hempty, hruntime⟩ :=
    @transform_verdict blamedPass .default Cache.cachingProject hclean
  obtain ⟨rfl, hcontents, herrors⟩ := hblamed _ _ _ reportsOf_blamedPass rfl
  have hplace : blamedPass.sheet.errors ++ [(Diagnosis.placeless "no").message ++ "\n      at " ++
      (if (Diagnosis.placeless "no").file = "stdin" then blamedPass.sheet.path
        else blamedPass.session.disk.absolute (Diagnosis.placeless "no").file) ++
      ":" ++ toString (Diagnosis.placeless "no").line ++ ":" ++
        toString (Diagnosis.placeless "no").column] = ["no\n      at /s/main.scss:0:0"] := by
    decide
  exact ⟨hclean, pass', hrun, honce, hcontents, herrors.trans hplace, hempty,
    hruntime.trans (by decide)⟩

end StyleBundle.Transform
