import StyleBundle.Proofs.Compile.Run
import StyleBundle.Proofs.Transform.Parallel

/-!
# Compilers that call back again

A compiler may go on calling back when it has made its report. The pass has taken the first report
by then, so nothing that it does or leaves behind tells whether there are others.
-/

namespace StyleBundle

namespace Compiler

/-- The reports that a compile makes, in order, or the failure that it ends with. -/
def reports (c : Compiler) (d : Disk) (r : Request) : Except Failure (Report × List Report) :=
  match c.kind with
  | .host reply => (reply c.count d r).reports
  | .engine engine => (Engine.run (fun _ => .ok ()) (engine.compile d r)).answer

/-- A compile is waited for until its first report. -/
theorem report_render (c : Compiler) (d : Disk) (r : Request) :
    (c.render d r).report = (c.reports d r).map Prod.fst := by
  unfold render reports
  cases c.kind with
  | host reply => rfl
  | engine engine => rfl

/-- The same way of compiling without any report but the first. -/
def Kind.once : Kind → Kind
  | .host reply => .host fun calls d r =>
    { reply calls d r with
      reports := (reply calls d r).reports.map fun reports => (reports.1, []) }
  | .engine style => .engine style

/-- The same compiler without any report but the first. -/
def once (c : Compiler) : Compiler := { c with kind := c.kind.once }

/-- The first report is left. -/
theorem reports_once (c : Compiler) (d : Disk) (r : Request) :
    c.once.reports d r = (c.reports d r).map fun reports => (reports.1, []) := by
  unfold reports once
  cases c.kind with
  | host reply => rfl
  | engine engine =>
    simp only [Kind.once]
    rcases Engine.run_cases (fun _ => .ok ()) (engine.compile d r) with
      ⟨report, records, hrun, -⟩ | ⟨failure, hrun⟩
    · rw [hrun]
      rfl
    · rw [hrun]
      rfl

/-- A compile comes to the same without the other reports. -/
theorem render_once (c : Compiler) (d : Disk) (r : Request) : c.once.render d r =
    { c.render d r with compiler := (c.render d r).compiler.once } := by
  unfold render once
  cases hkind : c.kind with
  | host reply =>
    simp only [Kind.once]
    cases (reply c.count d r).reports with
    | error failure => rfl
    | ok reports => rfl
  | engine engine => simp only [Kind.once]

end Compiler

/-- The same session, with a shared compiler that calls back once. -/
def Session.once (s : Session) : Session := { s with compiler := s.compiler.map Compiler.once }

/-- The shared compiler of such a session calls back once. -/
theorem Session.sharedCompiler_once (s : Session) :
    s.once.sharedCompiler = s.sharedCompiler.map Compiler.once := by
  obtain ⟨disk, engine, compiler, resources⟩ := s
  cases compiler with
  | some compiler => rfl
  | none =>
    cases engine with
    | some engine => rfl
    | none => rfl

/-- Such a session reads the same resources. -/
theorem Session.loadResources_once (s : Session) (paths : List String) :
    s.once.loadResources paths =
      ((s.loadResources paths).1, (s.loadResources paths).2.once) := by
  obtain ⟨disk, engine, compiler, resources⟩ := s
  cases resources with
  | some resources => rfl
  | none =>
    simp only [loadResources, once]
    cases readTexts disk paths with
    | error failure => rfl
    | ok texts => rfl

namespace Transform

variable {α β : Type} {settings : Settings} {p : Project} {pass pass' : Pass}

/-- The same pass, with compilers that call back once. -/
def Pass.once (pass : Pass) : Pass :=
  { pass with session := pass.session.once, own := pass.own.map Compiler.once }

/-- The compiler of such a pass calls back once. -/
theorem compilerOf_once (pass : Pass) :
    compilerOf pass.once = (compilerOf pass).map Compiler.once := by
  obtain ⟨session, own, sheet, records⟩ := pass
  cases own with
  | some own => rfl
  | none => exact session.sharedCompiler_once

/-- A part of a pass to which only first reports make a difference. -/
def HearsOnce (part : Part α) : Prop :=
  ∀ pass, part.run pass.once = ((part.run pass).1, (part.run pass).2.once)

namespace HearsOnce

theorem pure (a : α) : HearsOnce (Pure.pure a : Part α) := fun _ => rfl

theorem ofResult (result : Except Failure α) : HearsOnce (ofResult result) := fun _ => rfl

theorem changeSheet (f : Sheet → Sheet) : HearsOnce (changeSheet f) := fun _ => rfl

theorem log (records : List LogRecord) : HearsOnce (log records) := fun _ => rfl

/-- Parts in a row hear first reports only if each of them does. -/
theorem bind {x : Part α} {f : α → Part β} (hx : HearsOnce x) (hf : ∀ a, HearsOnce (f a)) :
    HearsOnce (x >>= f) := by
  intro pass
  have hfirst := hx pass
  rw [run_bind, run_bind, hfirst]
  cases hrun : x.run pass with
  | mk result mid =>
    cases result with
    | ok a => exact hf a mid
    | error failure => rfl

/-- So does what goes on with a pass if it does not look at the compilers. -/
theorem get_bind {f : Pass → Part β} (hblind : ∀ pass, f pass.once = f pass)
    (hf : ∀ pass, HearsOnce (f pass)) : HearsOnce (get >>= f) := by
  intro pass
  rw [run_get_bind, run_get_bind, hblind]
  exact hf pass pass

end HearsOnce

theorem hearsOnce_lookUp : HearsOnce (lookUp settings p) := by
  unfold lookUp consult
  split
  · exact .get_bind (fun _ => rfl) fun _ => .bind (.ofResult _) fun _ =>
      .bind (.changeSheet _) fun _ => .bind (.log _) fun _ => .pure _
  · exact .pure false

theorem hearsOnce_load : HearsOnce load :=
  .get_bind (fun _ => rfl) fun _ => .bind (.ofResult _) fun _ =>
    .bind (.changeSheet _) fun _ => .log _

/-- The compiler that is made sure of calls back once. -/
theorem hearsOnce_requireCompiler : HearsOnce requireCompiler := by
  rintro ⟨session, own, sheet, records⟩
  have hshared := session.sharedCompiler_once
  rw [requireCompiler, run_get_bind, run_get_bind]
  cases own with
  | some own => rfl
  | none =>
    simp only [Pass.once, Option.map_none, Option.isNone_none, if_true, run_bind, run_ofResult,
      hshared]
    cases session.sharedCompiler with
    | error failure => rfl
    | ok shared => rfl

theorem hearsOnce_resources : HearsOnce (resources settings) := by
  intro pass
  have hload := pass.session.loadResources_once settings.resources
  rw [resources_run, resources_run, resourcesOf, resourcesOf]
  split
  · rfl
  · simp only [Pass.once, hload]

theorem hearsOnce_extractDependencies (r : Request) : HearsOnce (extractDependencies r) :=
  .get_bind (fun _ => rfl) fun _ => .bind (.ofResult _) fun _ => .changeSheet _

theorem hearsOnce_makeRequest : HearsOnce (makeRequest settings p) := by
  refine .bind hearsOnce_load fun _ => .get_bind (fun _ => rfl) fun _ => ?_
  split
  · exact .pure none
  · exact .bind hearsOnce_requireCompiler fun _ => .bind hearsOnce_resources fun _ =>
      .get_bind (fun _ => rfl) fun _ => .bind (hearsOnce_extractDependencies _) fun _ => .pure _

theorem hearsOnce_prepare : HearsOnce (prepare settings p) := by
  refine .bind (.changeSheet _) fun _ => .bind hearsOnce_lookUp fun hit =>
    .bind (.changeSheet _) fun _ => ?_
  cases hit with
  | true => exact .get_bind (fun _ => rfl) fun _ => .bind (.log _) fun _ => .pure none
  | false => exact hearsOnce_makeRequest

/-- A request is answered by the same report. -/
theorem hearsOnce_submit (r : Request) : HearsOnce (submit r) := by
  rintro ⟨session, own, sheet, records⟩
  have hshared := session.sharedCompiler_once
  rw [submit, run_get_bind, run_get_bind]
  cases own with
  | some own =>
    have hrender := own.render_once session.disk r
    simp only [Pass.once, Option.map_some]
    simp only [Session.once, hrender]
    rfl
  | none =>
    simp only [Pass.once, Option.map_none, run_bind, run_ofResult, hshared]
    cases session.sharedCompiler with
    | error failure => rfl
    | ok shared =>
      have hrender := shared.render_once session.disk r
      simp only [Except.map, Session.once, hrender]
      rfl

theorem hearsOnce_settle (report : Report) : HearsOnce (settle settings p report) := by
  obtain ⟨diagnosis, output⟩ := report
  cases diagnosis with
  | some diagnosis =>
    exact .get_bind (fun _ => rfl) fun _ => .bind (.changeSheet _) fun _ => .log _
  | none =>
    cases output with
    | none => exact fun _ => rfl
    | some output =>
      refine .bind (.changeSheet _) fun _ => ?_
      split
      · exact .get_bind (fun _ => rfl) fun _ => .bind (.changeSheet _) fun _ =>
          .bind (.ofResult _) fun _ => fun _ => rfl
      · exact .pure ()

/-- A whole pass ends in the same way and leaves the same, whatever the compiler reports behind its
first report. -/
theorem hearsOnce_transform : HearsOnce (transform settings p) := by
  refine .bind hearsOnce_prepare fun request => ?_
  cases request with
  | none => exact .pure ()
  | some request => exact .bind (hearsOnce_submit request) fun report => hearsOnce_settle report

end Transform

end StyleBundle
