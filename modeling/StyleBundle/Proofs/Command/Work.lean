import StyleBundle.Command.Run
import StyleBundle.Proofs.Transform.Part

/-!
# Parts of a run

A command is run part by part. For each part this module says what running it gives, and what the
messages look like behind a complaint: a line that opens with the word for errors.
-/

namespace StyleBundle.Command

namespace Work

variable {α β : Type} {r r' : Run}

/-- Runs a part. -/
def run (work : Work α) (r : Run) : Except Failure α × Run := StateT.run (ExceptT.run work) r

/-! ## Running parts -/

theorem run_pure (a : α) (r : Run) : run (pure a) r = (.ok a, r) := rfl

/-- Parts in a row: the second one is run where the first one has succeeded. -/
theorem run_bind (x : Work α) (f : α → Work β) (r : Run) : run (x >>= f) r =
    match x.run r with
    | (result, mid) =>
      match result with
      | .ok a => (f a).run mid
      | .error failure => (.error failure, mid) :=
  Failure.run_bind x f r

theorem run_bind_of_ok {x : Work α} {a : α} (h : x.run r = (.ok a, r')) (f : α → Work β) :
    run (x >>= f) r = (f a).run r' := by
  rw [run_bind, h]

theorem run_bind_of_error {x : Work α} {failure : Failure} (h : x.run r = (.error failure, r'))
    (f : α → Work β) : run (x >>= f) r = (.error failure, r') := by
  rw [run_bind, h]

/-- A result in front of a part is handed on, or it ends the work. -/
theorem run_ofResult_bind (result : Except Failure α) (f : α → Work β) (r : Run) :
    run (ofResult result >>= f) r =
      match result with
      | .ok a => (f a).run r
      | .error failure => (.error failure, r) := by
  rw [run_bind]
  rfl

theorem run_disk_bind (f : Disk → Work β) (r : Run) :
    run (disk >>= f) r = (f r.session.disk).run r := rfl

theorem run_complain (message : String) (r : Run) : (complain message).run r =
    (.ok (), { r with messages := r.messages ++ ("Error: " ++ message ++ "\n") }) := rfl

/-- The text that records show. -/
def shown (verbose : Bool) (records : List LogRecord) : String :=
  String.join ((records.filter fun r => verbose || r.level.isShown).map fun r => r.line ++ "\n")

theorem run_log (records : List LogRecord) (r : Run) : (log records).run r =
    (.ok (), { r with messages := r.messages ++ shown r.verbose records }) := rfl

theorem run_resolve_bind (path : String) (f : String → Work β) (r : Run) :
    run (resolve path >>= f) r =
      match r.session.disk.resolve path with
      | .ok full => (f full).run r
      | .error fault => (.error (.disk fault), r) := by
  rw [run_bind]
  unfold resolve
  rw [run_disk_bind]
  cases r.session.disk.resolve path <;> rfl

theorem run_isFile_bind [Limits] (path : String) (f : Bool → Work β) (r : Run) :
    run (isFile path >>= f) r =
      match r.session.disk.probe path with
      | .ok node? => (f (node?.any Node.isFile)).run r
      | .error fault => (.error (.disk fault), r) := by
  rw [run_bind]
  unfold isFile
  rw [run_disk_bind, run_ofResult_bind]
  cases r.session.disk.probe path <;> rfl

theorem run_changeDisk_bind (change : Disk → Except Disk.Fault Disk) (f : Unit → Work β) (r : Run) :
    run (changeDisk change >>= f) r =
      match change r.session.disk with
      | .ok disk => (f ()).run { r with session := { r.session with disk } }
      | .error fault => (.error (.disk fault), r) := by
  rw [run_bind]
  unfold changeDisk
  rw [run_disk_bind, run_ofResult_bind]
  cases change r.session.disk <;> rfl

/-! ## Complaints -/

/-- A text that is empty or ends with a line feed. -/
def EndsLine (text : String) : Prop := text = "" ∨ ∃ front, text = front ++ "\n"

/-- A line of a text opens with the word for errors. -/
def HasErrorLine (text : String) : Prop :=
  ∃ before message after, text = before ++ ("Error: " ++ message ++ "\n" ++ after) ∧ EndsLine before

theorem EndsLine.append {front back : String} (hfront : EndsLine front) (hback : EndsLine back) :
    EndsLine (front ++ back) := by
  rcases hback with rfl | ⟨rest, rfl⟩
  · rwa [String.append_empty]
  · exact .inr ⟨front ++ rest, (String.append_assoc ..).symm⟩

/-- Lines end with a line feed. -/
theorem endsLine_join {lines : List String} (h : ∀ line ∈ lines, EndsLine line) :
    EndsLine (String.join lines) := by
  induction lines with
  | nil => exact .inl rfl
  | cons line rest ih =>
    rw [String.join_cons]
    exact (h line (List.mem_cons_self ..)).append (ih fun l hl => h l (List.mem_cons_of_mem _ hl))

/-- Records are shown on lines of their own. -/
theorem endsLine_shown (verbose : Bool) (records : List LogRecord) :
    EndsLine (shown verbose records) := by
  refine endsLine_join fun line hline => ?_
  obtain ⟨record, -, rfl⟩ := List.mem_map.1 hline
  exact .inr ⟨record.line, rfl⟩

/-- Complaints are made one after the other. -/
theorem run_complain_forM (errors : List String) (r : Run) : (errors.forM complain).run r =
    (.ok (), { r with
      messages :=
        r.messages ++ String.join (errors.map fun message => "Error: " ++ message ++ "\n") }) := by
  induction errors generalizing r with
  | nil => simp [List.forM, run_pure]
  | cons message rest ih =>
    rw [List.map_cons, String.join_cons, ← String.append_assoc]
    exact (run_bind_of_ok (run_complain message r) _).trans (ih _)

/-- A complaint behind lines makes a line of errors. -/
theorem hasErrorLine_complain {before : String} (h : EndsLine before) (message after : String) :
    HasErrorLine (before ++ ("Error: " ++ message ++ "\n" ++ after)) :=
  ⟨before, message, after, rfl, h⟩

end Work

end StyleBundle.Command
