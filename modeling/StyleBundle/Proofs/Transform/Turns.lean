import Mathlib.Logic.Function.Basic
import StyleBundle.Proofs.Transform.Parallel

/-!
# Passes that take turns

Each pass waits at one point, and there other passes may go on: they share the session, and the
plugin's own compiler. A pass that goes through without a break is its two parts in a row.
-/

namespace StyleBundle.Transform

/-- How far a pass has got. -/
inductive Stage
  /-- Nothing has been done. -/
  | fresh
  /-- The pass waits, and will go on with a report. -/
  | waiting (report : Report)
  /-- The pass has ended. -/
  | done (result : Except Failure Unit)

/-- A stylesheet on its way through a pass. -/
structure Task where
  /-- The stylesheet. -/
  sheet : Sheet
  /-- What the pass has logged. -/
  records : List LogRecord
  /-- How far the pass has got. -/
  stage : Stage

/-- Tasks that share a session and the plugin's own compiler. -/
structure World (ι : Type) where
  /-- The session. -/
  session : Session
  /-- The plugin's own compiler. -/
  own : Option Compiler
  /-- The tasks. -/
  tasks : ι → Task

/-- How far a pass has got when it comes to the wait, or ends before. -/
def Stage.behind : Except Failure (Option Report) → Stage
  | .ok none => .done (.ok ())
  | .ok (some report) => .waiting report
  | .error failure => .done (.error failure)

/-- How many parts of a pass are left at most. -/
def Stage.left : Stage → Nat
  | .fresh => 2
  | .waiting _ => 1
  | .done _ => 0

namespace World

variable {ι : Type}

/-- The source of a task. -/
def path (w : World ι) (i : ι) : String := (w.tasks i).sheet.path

/-- The pass of a task as it goes on. -/
def pass (w : World ι) (i : ι) : Pass := ⟨w.session, w.own, (w.tasks i).sheet, (w.tasks i).records⟩

@[simp] theorem session_pass (w : World ι) (i : ι) : (w.pass i).session = w.session := rfl

variable [DecidableEq ι]

/-- The world when the pass of a task has got to a stage. -/
def put (w : World ι) (i : ι) (pass : Pass) (stage : Stage) : World ι :=
  ⟨pass.session, pass.own, Function.update w.tasks i ⟨pass.sheet, pass.records, stage⟩⟩

/-- The world behind the next part of a task. -/
def step (settings : Settings) (p : Project) (w : World ι) (i : ι) : World ι :=
  match (w.tasks i).stage with
  | .fresh =>
    let (result, pass) := (launch settings p).run (w.pass i)
    w.put i pass (.behind result)
  | .waiting report =>
    let (result, pass) := (settle settings p report).run (w.pass i)
    w.put i pass (.done result)
  | .done _ => w

/-- The world behind a whole task, if nothing of it has been done. -/
def finish (settings : Settings) (p : Project) (w : World ι) (i : ι) : World ι :=
  match (w.tasks i).stage with
  | .fresh =>
    let (result, pass) := (transform settings p).run (w.pass i)
    w.put i pass (.done result)
  | _ => w

/-- The world behind the parts of tasks in the order of a schedule. -/
def interleave (settings : Settings) (p : Project) (w : World ι) (schedule : List ι) : World ι :=
  schedule.foldl (step settings p) w

/-- The world behind whole tasks, one after another. -/
def inTurn (settings : Settings) (p : Project) (w : World ι) (order : List ι) : World ι :=
  order.foldl (finish settings p) w

end World

variable {ι : Type} [DecidableEq ι] {settings : Settings} {p : Project} {first w : World ι}
  {written : ι → Prop} {i j : ι} {pass mid : Pass} {stage : Stage} {schedule order : List ι}

namespace World

@[simp] theorem tasks_put_self (w : World ι) (i : ι) (pass : Pass) (stage : Stage) :
    (w.put i pass stage).tasks i = ⟨pass.sheet, pass.records, stage⟩ := Function.update_self ..

@[simp] theorem tasks_put_of_ne (h : j ≠ i) (w : World ι) (pass : Pass) (stage : Stage) :
    (w.put i pass stage).tasks j = w.tasks j := Function.update_of_ne h ..

theorem stage_put_self (w : World ι) (i : ι) (pass : Pass) (stage : Stage) :
    ((w.put i pass stage).tasks i).stage = stage := by rw [tasks_put_self]

theorem sheet_put_self (w : World ι) (i : ι) (pass : Pass) (stage : Stage) :
    ((w.put i pass stage).tasks i).sheet = pass.sheet := by rw [tasks_put_self]

@[simp] theorem session_put (w : World ι) (i : ι) (pass : Pass) (stage : Stage) :
    (w.put i pass stage).session = pass.session := rfl

theorem pass_put_self (w : World ι) (i : ι) (pass : Pass) (stage : Stage) :
    (w.put i pass stage).pass i = pass := by
  simp only [World.pass, tasks_put_self]
  rfl

theorem put_put (w : World ι) (i : ι) (pass pass' : Pass) (stage stage' : Stage) :
    (w.put i pass stage).put i pass' stage' = w.put i pass' stage' := by
  simp only [put, Function.update_idem]

/-- The first part of a task comes to the wait. -/
theorem step_of_fresh (h : (w.tasks i).stage = .fresh) : w.step settings p i =
    w.put i ((launch settings p).run (w.pass i)).2
      (.behind ((launch settings p).run (w.pass i)).1) := by
  rw [step, h]

/-- The second part of a task goes on with the report. -/
theorem step_of_waiting {report : Report} (h : (w.tasks i).stage = .waiting report) :
    w.step settings p i =
      w.put i ((settle settings p report).run (w.pass i)).2
        (.done ((settle settings p report).run (w.pass i)).1) := by
  rw [step, h]

/-- A task that has ended stays as it is. -/
theorem step_of_done {result : Except Failure Unit} (h : (w.tasks i).stage = .done result) :
    w.step settings p i = w := by
  rw [step, h]

/-- A part of a task leaves the other tasks. -/
theorem tasks_step_of_ne (h : j ≠ i) : (w.step settings p i).tasks j = w.tasks j := by
  unfold step
  split
  · exact tasks_put_of_ne h ..
  · exact tasks_put_of_ne h ..
  · rfl

/-- With each of its parts a task has one less left. -/
theorem left_step (settings : Settings) (p : Project) (w : World ι) (i : ι) :
    ((w.step settings p i).tasks i).stage.left ≤ (w.tasks i).stage.left - 1 := by
  cases hstage : (w.tasks i).stage with
  | fresh =>
    rw [step_of_fresh hstage, tasks_put_self]
    simp only
    unfold Stage.behind
    split <;> simp [Stage.left]
  | waiting report =>
    rw [step_of_waiting hstage, tasks_put_self]
    simp [Stage.left]
  | done result =>
    rw [step_of_done hstage, hstage]
    simp [Stage.left]

/-- A task whose turn has come often enough has ended. -/
theorem left_interleave (settings : Settings) (p : Project) (w : World ι) (schedule : List ι)
    (i : ι) : ((w.interleave settings p schedule).tasks i).stage.left ≤
      (w.tasks i).stage.left - schedule.count i := by
  induction schedule generalizing w with
  | nil => exact Nat.le_refl _
  | cons j rest ih =>
    have hrest := ih (w.step settings p j)
    rw [interleave, List.foldl_cons, ← interleave]
    by_cases hj : j = i
    · have hstep := left_step settings p w i
      rw [hj] at hrest ⊢
      rw [List.count_cons_self]
      omega
    · rw [tasks_step_of_ne (Ne.symm hj)] at hrest
      rwa [List.count_cons_of_ne hj]

theorem exists_done_of_interleave (h : 2 ≤ schedule.count i) : ∃ result,
    ((w.interleave settings p schedule).tasks i).stage = .done result := by
  have hleft := left_interleave settings p w schedule i
  have hmost : (w.tasks i).stage.left ≤ 2 := by cases (w.tasks i).stage <;> simp [Stage.left]
  cases hstage : ((w.interleave settings p schedule).tasks i).stage with
  | done result => exact ⟨result, rfl⟩
  | fresh =>
    rw [hstage, Stage.left] at hleft
    omega
  | waiting report =>
    rw [hstage, Stage.left] at hleft
    omega

/-! ## Whole tasks as two parts -/

/-- A whole task of which nothing has been done is a whole pass. -/
theorem finish_of_fresh (h : (w.tasks i).stage = .fresh) : w.finish settings p i =
    w.put i ((transform settings p).run (w.pass i)).2
      (.done ((transform settings p).run (w.pass i)).1) := by
  rw [finish, h]

/-- A whole task leaves the other tasks. -/
theorem tasks_finish_of_ne (h : j ≠ i) : (w.finish settings p i).tasks j = w.tasks j := by
  unfold finish
  split
  · exact tasks_put_of_ne h ..
  · rfl

/-- A whole task is its two parts in a row, unless it waits already. -/
theorem finish_eq_step_step (h : ∀ report, (w.tasks i).stage ≠ .waiting report) :
    w.finish settings p i = (w.step settings p i).step settings p i := by
  cases hstage : (w.tasks i).stage with
  | waiting report => exact absurd hstage (h report)
  | done result =>
    rw [step_of_done hstage, step_of_done hstage, finish, hstage]
  | fresh =>
    rw [finish_of_fresh hstage, step_of_fresh hstage, run_transform]
    cases hlaunch : (launch settings p).run (w.pass i) with
    | mk result mid =>
      cases result with
      | error failure => rw [step_of_done (by rw [stage_put_self]; rfl)]; rfl
      | ok report =>
        cases report with
        | none => rw [step_of_done (by rw [stage_put_self]; rfl)]; rfl
        | some report =>
          rw [step_of_waiting (by rw [stage_put_self]; rfl), pass_put_self, put_put]

/-- Behind a whole task, no task waits that has not waited before. -/
theorem ne_waiting_finish (h : ∀ j report, (w.tasks j).stage ≠ .waiting report) (j : ι)
    (report : Report) : ((w.finish settings p i).tasks j).stage ≠ .waiting report := by
  by_cases hj : j = i
  · unfold finish
    split
    · rw [hj, stage_put_self]
      exact Stage.noConfusion
    · exact h j report
  · rw [tasks_finish_of_ne hj]
    exact h j report

/-- Whole tasks one after another are one way to take turns. -/
theorem inTurn_eq_interleave (h : ∀ i report, (w.tasks i).stage ≠ .waiting report)
    (order : List ι) :
    w.inTurn settings p order = w.interleave settings p (order.flatMap fun i => [i, i]) := by
  induction order generalizing w with
  | nil => rfl
  | cons i rest ih =>
    have hrest := ih (w := w.finish settings p i) (ne_waiting_finish h)
    rw [inTurn, List.foldl_cons, ← inTurn, hrest, finish_eq_step_step (h i)]
    rfl

/-- A task that is in the order has two parts in that way to take turns. -/
theorem two_le_count_of_mem (h : i ∈ order) : 2 ≤ (order.flatMap fun i => [i, i]).count i := by
  obtain ⟨front, rest, rfl⟩ := List.append_of_mem h
  simp only [List.flatMap_append, List.flatMap_cons, List.count_append, List.count_cons_self,
    List.count_nil]
  omega

end World

end StyleBundle.Transform
