import StyleBundle.Proofs.Import.Fault
import StyleBundle.Proofs.Import.Reached

/-!
# The order of reads

Flattening reads a stylesheet before those that it imports, and those in the order of its
statements, each with all that it imports in turn. What earlier statements have left of the text
plays no part in that. The first read that fails is the last one, and its failure the outcome.
-/

namespace StyleBundle.Import

variable {d : Disk} {root extension path : String} {depth : ℕ} {run other : Flattening}

/-- What holds of every member from some depth on holds of all members from some depth on. -/
theorem exists_depth {α : Type} {P : α → ℕ → Prop} {l : List α}
    (h : ∀ a ∈ l, ∃ depth, ∀ more ≥ depth, P a more) :
    ∃ depth, ∀ more ≥ depth, ∀ a ∈ l, P a more := by
  induction l with
  | nil => exact ⟨0, by simp⟩
  | cons a rest ih =>
    obtain ⟨first, hfirst⟩ := h a (List.mem_cons_self ..)
    obtain ⟨depth, hdepth⟩ := ih fun b hb => h b (List.mem_cons_of_mem _ hb)
    refine ⟨max first depth, fun more hmore => List.forall_mem_cons.2 ⟨?_, ?_⟩⟩
    · exact hfirst more (Nat.le_trans (Nat.le_max_left ..) hmore)
    · exact hdepth more (Nat.le_trans (Nat.le_max_right ..) hmore)

variable [Limits]

/-! ## Flattening that comes to an end -/

/-- Flattening the stylesheet at a path comes to an end, with a text or at a read that fails. -/
def Ends (d : Disk) (root extension path : String) (run : Flattening) : Prop :=
  ∃ depth, flattenWithin d root extension depth path = run ∧ run.result ≠ .error .importCycle

/-- Flattening that comes to an end gives the same at every greater depth. -/
theorem flattenWithin_of_le {more : ℕ}
    (h : (flattenWithin d root extension depth path).result ≠ .error .importCycle)
    (hle : depth ≤ more) :
    flattenWithin d root extension more path = flattenWithin d root extension depth path := by
  induction hle with
  | refl => rfl
  | step _ ih => rw [flattenWithin_succ_of_ne (ih ▸ h), ih]

namespace Ends

/-- Flattening at some depth is the one that comes to an end, unless the depth is too small. -/
theorem eq_of_ne (h : Ends d root extension path run)
    (hne : (flattenWithin d root extension depth path).result ≠ .error .importCycle) :
    flattenWithin d root extension depth path = run := by
  obtain ⟨enough, rfl, hends⟩ := h
  rcases Nat.le_total depth enough with hle | hle
  · exact (flattenWithin_of_le hne hle).symm
  · exact flattenWithin_of_le hends hle

/-- Flattening comes to one end only. -/
theorem unique (h : Ends d root extension path run) (hother : Ends d root extension path other) :
    run = other := by
  obtain ⟨depth, rfl, hne⟩ := h
  exact hother.eq_of_ne hne

end Ends

/-! ## The order -/

/-- The statements of the stylesheet at a path, none if it cannot be read. -/
def statementsAt (d : Disk) (extension path : String) : List Statement :=
  match sourceText d extension path with
  | .ok text => statements text
  | .error _ => []

theorem statementsAt_of_ok {text : String} (h : sourceText d extension path = .ok text) :
    statementsAt d extension path = statements text := by
  simp only [statementsAt, h]

theorem statementsAt_of_error {failure : Failure}
    (h : sourceText d extension path = .error failure) : statementsAt d extension path = [] := by
  simp only [statementsAt, h]

theorem statementsAt_of_empty (h : sourceText d extension path = .ok "") :
    statementsAt d extension path = [] := by
  rw [statementsAt_of_ok h, statements, String.toList_empty, scan]

/-- A stylesheet reads what its statements name. -/
theorem reads_iff {next : String} : Reads d root extension path next ↔
    ∃ statement ∈ statementsAt d extension path,
      next = targetPath root extension path statement.target := by
  constructor
  · rintro ⟨text, htext, statement, hstatement, hnext⟩
    exact ⟨statement, by rwa [statementsAt_of_ok htext], hnext⟩
  · rintro ⟨statement, hstatement, hnext⟩
    cases htext : sourceText d extension path with
    | error failure => simp [statementsAt_of_error htext] at hstatement
    | ok text =>
      rw [statementsAt_of_ok htext] at hstatement
      exact ⟨text, htext, statement, hstatement, hnext⟩

/-- The paths in the order in which they are read for the stylesheet at a path, as long as no read
fails: its own, and then for every statement in turn those that are read for its target. -/
inductive Preorder (d : Disk) (root extension : String) : String → List String → Prop
  | intro {path : String} (inner : Statement → List String)
      (h : ∀ statement ∈ statementsAt d extension path, Preorder d root extension
        (targetPath root extension path statement.target) (inner statement)) :
      Preorder d root extension path
        (entryPath extension path :: (statementsAt d extension path).flatMap inner)

/-- The order for a stylesheet whose statements are known. -/
theorem Preorder.of_statementsAt {statements : List Statement} (inner : Statement → List String)
    (hstatements : statementsAt d extension path = statements)
    (h : ∀ statement ∈ statements, Preorder d root extension
      (targetPath root extension path statement.target) (inner statement)) :
    Preorder d root extension path (entryPath extension path :: statements.flatMap inner) := by
  subst hstatements
  exact .intro inner h

/-- For a stylesheet without statements nothing else is read. -/
theorem Preorder.of_nil (h : statementsAt d extension path = []) :
    Preorder d root extension path [entryPath extension path] :=
  .of_statementsAt (fun _ => []) h (by simp)

/-- There is an order where no chain of imports goes on without end. -/
theorem exists_preorder (h : Acc (Function.swap (Reads d root extension)) path) :
    ∃ order, Preorder d root extension path order := by
  induction h with
  | intro path _ ih =>
    have hinner : ∀ statement ∈ statementsAt d extension path, ∃ inner,
        Preorder d root extension (targetPath root extension path statement.target) inner :=
      fun statement hstatement => ih _ (reads_iff.2 ⟨statement, hstatement, rfl⟩)
    choose! inner hinner using hinner
    exact ⟨_, .intro inner hinner⟩

/-- Where there is an order, no chain of imports goes on without end. -/
theorem Preorder.acc {order : List String} (h : Preorder d root extension path order) :
    Acc (Function.swap (Reads d root extension)) path := by
  induction h with
  | intro _ _ ih =>
    refine .intro _ fun next hnext => ?_
    obtain ⟨statement, hstatement, rfl⟩ := reads_iff.1 hnext
    exact ih statement hstatement

/-- There is one order only. -/
theorem Preorder.unique {order order' : List String} (h : Preorder d root extension path order)
    (h' : Preorder d root extension path order') : order = order' := by
  induction h generalizing order' with
  | @intro path inner _ ih =>
    cases h' with
    | intro inner' hinner' =>
      exact congrArg _ (List.flatMap_congr fun statement hstatement =>
        ih statement hstatement (hinner' statement hstatement))

/-- The reads of paths in turn, up to the first one that fails. -/
def readsUpTo (d : Disk) : List String → List (String × Reading)
  | [] => []
  | file :: rest =>
    match (read d file).text with
    | .ok _ => (file, read d file) :: readsUpTo d rest
    | .error _ => [(file, read d file)]

/-- How the first read that fails does so. -/
def firstFailure? (d : Disk) : List String → Option Failure
  | [] => none
  | file :: rest =>
    match (read d file).text with
    | .ok _ => firstFailure? d rest
    | .error failure => some failure

section Turns

variable {file text : String} {rest order : List String} {failure : Failure}

theorem readsUpTo_of_ok (h : (read d file).text = .ok text) :
    readsUpTo d (file :: rest) = (file, read d file) :: readsUpTo d rest := by
  simp only [readsUpTo, h]

theorem readsUpTo_of_error (h : (read d file).text = .error failure) :
    readsUpTo d (file :: rest) = [(file, read d file)] := by
  simp only [readsUpTo, h]

theorem firstFailure?_of_ok (h : (read d file).text = .ok text) :
    firstFailure? d (file :: rest) = firstFailure? d rest := by
  simp only [firstFailure?, h]

theorem firstFailure?_of_error (h : (read d file).text = .error failure) :
    firstFailure? d (file :: rest) = some failure := by
  simp only [firstFailure?, h]

/-- The first failure of two rows of paths is that of the first row, or else that of the second. -/
theorem firstFailure?_append (order more : List String) :
    firstFailure? d (order ++ more) = (firstFailure? d order).or (firstFailure? d more) := by
  induction order with
  | nil => rfl
  | cons file rest ih =>
    rw [List.cons_append]
    cases htext : (read d file).text with
    | error failure =>
      rw [firstFailure?_of_error htext, firstFailure?_of_error htext, Option.some_or]
    | ok text => rw [firstFailure?_of_ok htext, firstFailure?_of_ok htext, ih]

/-- The second of two rows of paths is read if the first one does not fail. -/
theorem readsUpTo_append (order more : List String) :
    readsUpTo d (order ++ more) =
      readsUpTo d order ++ if firstFailure? d order = none then readsUpTo d more else [] := by
  induction order with
  | nil => rfl
  | cons file rest ih =>
    rw [List.cons_append]
    cases htext : (read d file).text with
    | error failure =>
      rw [readsUpTo_of_error htext, readsUpTo_of_error htext, firstFailure?_of_error htext,
        if_neg (Option.some_ne_none failure), List.append_nil]
    | ok text =>
      rw [readsUpTo_of_ok htext, readsUpTo_of_ok htext, firstFailure?_of_ok htext, ih,
        List.cons_append]

/-- No path can be read exactly if none of them fails. -/
theorem firstFailure?_eq_none_iff :
    firstFailure? d order = none ↔ ∀ file ∈ order, ∃ text, (read d file).text = .ok text := by
  induction order with
  | nil => simp [firstFailure?]
  | cons file rest ih =>
    cases htext : (read d file).text with
    | error failure => simp [firstFailure?_of_error htext, htext]
    | ok text => simp [firstFailure?_of_ok htext, htext, ih]

/-- The first failure is that of a path behind paths that can all be read. -/
theorem exists_of_firstFailure? (h : firstFailure? d order = some failure) :
    ∃ before file after, order = before ++ file :: after ∧ firstFailure? d before = none ∧
      (read d file).text = .error failure := by
  induction order with
  | nil => cases h
  | cons file rest ih =>
    cases htext : (read d file).text with
    | error failure =>
      rw [firstFailure?_of_error htext, Option.some.injEq] at h
      exact ⟨[], file, rest, rfl, rfl, h ▸ htext⟩
    | ok text =>
      rw [firstFailure?_of_ok htext] at h
      obtain ⟨before, last, after, rfl, hbefore, hlast⟩ := ih h
      exact ⟨file :: before, last, after, rfl, by rwa [firstFailure?_of_ok htext], hlast⟩

/-- Reads that all go well are those of all paths. -/
theorem readsUpTo_of_none (h : firstFailure? d order = none) :
    readsUpTo d order = order.map fun file => (file, read d file) := by
  induction order with
  | nil => rfl
  | cons file rest ih =>
    cases htext : (read d file).text with
    | error failure => simp [firstFailure?_of_error htext] at h
    | ok text =>
      rw [firstFailure?_of_ok htext] at h
      rw [readsUpTo_of_ok htext, ih h, List.map_cons]

/-- A read does not fail for imports that come back. -/
theorem firstFailure?_ne_cycle : firstFailure? d order ≠ some .importCycle := by
  intro h
  obtain ⟨before, file, after, -, -, hfails⟩ := exists_of_firstFailure? h
  rcases refused_or_undecodable_or_nul_of_read hfails with ⟨_, _, h⟩ | ⟨_, h⟩ | ⟨h, -⟩ <;> cases h

end Turns

/-! ## Flattening in order -/

/-- Flattening reads paths in turn, up to the first read that fails and as that read does. -/
structure Flattening.Follows (d : Disk) (f : Flattening) (order : List String) : Prop where
  /-- The reads are those of the paths, up to the first that fails. -/
  reads_eq : f.reads = readsUpTo d order
  /-- The failure is the first one of the reads. -/
  failure_iff : ∀ failure, f.result = .error failure ↔ firstFailure? d order = some failure

namespace Flattening.Follows

variable {order : List String}

/-- A flattening in order is not one that lacks depth. -/
theorem ne_cycle (h : run.Follows d order) : run.result ≠ .error .importCycle :=
  fun hcycle => firstFailure?_ne_cycle ((h.failure_iff _).1 hcycle)

/-- A flattening in order gives a text exactly if no read fails. -/
theorem exists_ok_iff (h : run.Follows d order) :
    (∃ out, run.result = .ok out) ↔ firstFailure? d order = none := by
  cases hresult : run.result with
  | error failure => simp [(h.failure_iff failure).1 hresult]
  | ok out =>
    refine ⟨fun _ => ?_, fun _ => ⟨out, rfl⟩⟩
    cases hfirst : firstFailure? d order with
    | none => rfl
    | some failure => cases hresult.symm.trans ((h.failure_iff failure).2 hfirst)

end Flattening.Follows

/-- Replacing statements reads in the order of the statements, whatever the text is that they are
replaced in. -/
theorem follows_replaceStatements {f : String → Flattening} {inner : Statement → List String}
    {statements : List Statement}
    (h : ∀ statement ∈ statements, (f statement.target).Follows d (inner statement))
    (s : List Char) :
    (replaceStatements f statements s).Follows d (statements.flatMap inner) := by
  induction statements generalizing s with
  | nil => exact ⟨rfl, fun failure => by simp [replaceStatements, firstFailure?]⟩
  | cons statement rest ih =>
    have hfirst := h statement (List.mem_cons_self ..)
    have hrest := fun s => ih (fun other hother => h other (List.mem_cons_of_mem _ hother)) s
    rw [List.flatMap_cons]
    cases hresult : (f statement.target).result with
    | error failure =>
      have hstop := (hfirst.failure_iff failure).1 hresult
      rw [replaceStatements_of_error hresult]
      refine ⟨?_, fun other => ?_⟩
      · rw [readsUpTo_append, hstop, if_neg (Option.some_ne_none failure), List.append_nil,
          hfirst.reads_eq]
      · rw [firstFailure?_append, hstop, Option.some_or, Except.error.injEq, Option.some.injEq]
    | ok text =>
      have hgo := hfirst.exists_ok_iff.1 ⟨text, hresult⟩
      rw [replaceStatements_of_ok hresult]
      refine ⟨?_, fun other => ?_⟩
      · rw [readsUpTo_append, if_pos hgo, hfirst.reads_eq, (hrest _).reads_eq]
      · rw [firstFailure?_append, hgo, Option.none_or, (hrest _).failure_iff other]

/-- Flattening that has depth enough reads in the order. -/
theorem Preorder.exists_follows {order : List String} (h : Preorder d root extension path order) :
    ∃ depth, ∀ more ≥ depth, (flattenWithin d root extension more path).Follows d order := by
  induction h with
  | @intro path inner _ ih =>
    obtain ⟨depth, hdepth⟩ := exists_depth ih
    refine ⟨depth + 1, fun more hmore => ?_⟩
    obtain ⟨more, rfl⟩ : ∃ n, more = n + 1 := ⟨more - 1, by omega⟩
    have hinner := hdepth more (by omega)
    cases htext : sourceText d extension path with
    | error failure =>
      have hread : (read d (entryPath extension path)).text = .error failure := htext
      rw [flattenWithin_of_error htext, statementsAt_of_error htext]
      refine ⟨(readsUpTo_of_error hread).symm, fun other => ?_⟩
      rw [firstFailure?_of_error hread, Except.error.injEq, Option.some.injEq]
    | ok text =>
      have hread : (read d (entryPath extension path)).text = .ok text := htext
      rw [statementsAt_of_ok htext] at hinner ⊢
      have hfollows := follows_replaceStatements (f := fun target =>
        flattenWithin d root extension more (targetPath root extension path target)) hinner
        text.toList
      rw [flattenWithin_of_ok htext]
      refine ⟨?_, fun other => ?_⟩
      · rw [readsUpTo_of_ok hread, hfollows.reads_eq]
      · rw [firstFailure?_of_ok hread, hfollows.failure_iff other]

/-- Flattening whose reads have an order comes to an end and follows it. -/
theorem Preorder.exists_ends {order : List String} (h : Preorder d root extension path order) :
    ∃ run, Ends d root extension path run ∧ run.Follows d order := by
  obtain ⟨depth, hdepth⟩ := h.exists_follows
  have hfollows := hdepth depth (Nat.le_refl depth)
  exact ⟨_, ⟨depth, rfl, hfollows.ne_cycle⟩, hfollows⟩

end StyleBundle.Import
