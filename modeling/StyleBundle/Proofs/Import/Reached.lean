import StyleBundle.Proofs.Import.Flatten

/-!
# What flattening reads

Flattening goes down every import, as often as it is met. Where it comes to an end it has read
exactly the stylesheets that the first one reaches, every read has gone well, and no chain of imports
goes on without end.
-/

namespace StyleBundle.Import

variable {d : Disk} {root extension path : String} {depth : ℕ} {out : List Char}

/-- Replacing statements that comes to an end reads what the flattening of each target reads. -/
theorem reads_replaceStatements {f : String → Flattening} {statements : List Statement}
    {s out : List Char} (h : (replaceStatements f statements s).result = .ok out) :
    (replaceStatements f statements s).reads =
        statements.flatMap (fun statement => (f statement.target).reads) ∧
      ∀ statement ∈ statements, ∃ text, (f statement.target).result = .ok text := by
  induction statements generalizing s with
  | nil => exact ⟨rfl, by simp⟩
  | cons statement rest ih =>
    cases hresult : (f statement.target).result with
    | error failure => simp [replaceStatements_of_error hresult] at h
    | ok text =>
      rw [replaceStatements_of_ok hresult] at h ⊢
      obtain ⟨hreads, hrest⟩ := ih h
      exact ⟨by rw [hreads, List.flatMap_cons], List.forall_mem_cons.2 ⟨⟨text, hresult⟩, hrest⟩⟩

variable [Limits]

/-- Flattening that comes to an end has read its stylesheet and then what the flattening of each
target reads, which comes to an end too. -/
theorem reads_flattenWithin_succ
    (h : (flattenWithin d root extension (depth + 1) path).result = .ok out) :
    ∃ text, sourceText d extension path = .ok text ∧
      (flattenWithin d root extension (depth + 1) path).reads =
        (entryPath extension path, read d (entryPath extension path)) ::
          (statements text).flatMap (fun statement => (flattenWithin d root extension depth
            (targetPath root extension path statement.target)).reads) ∧
      ∀ statement ∈ statements text, ∃ inlined, (flattenWithin d root extension depth
        (targetPath root extension path statement.target)).result = .ok inlined := by
  cases htext : sourceText d extension path with
  | error failure => simp [flattenWithin_of_error htext] at h
  | ok text =>
    rw [flattenWithin_of_ok htext] at h ⊢
    obtain ⟨hreads, hinner⟩ := reads_replaceStatements h
    exact ⟨text, rfl, by rw [hreads], hinner⟩

/-- Flattening that comes to an end has read exactly the stylesheets that are reached. -/
theorem mem_reads_flattenWithin
    (h : (flattenWithin d root extension depth path).result = .ok out)
    {file : String} {reading : Reading} :
    (file, reading) ∈ (flattenWithin d root extension depth path).reads ↔
      ∃ other, Relation.ReflTransGen (Reads d root extension) path other ∧
        file = entryPath extension other ∧ reading = read d file := by
  induction depth generalizing path out with
  | zero => cases h
  | succ depth ih =>
    obtain ⟨text, htext, hreads, hinner⟩ := reads_flattenWithin_succ h
    rw [hreads, List.mem_cons, List.mem_flatMap]
    constructor
    · rintro (hself | ⟨statement, hstatement, hmem⟩)
      · obtain ⟨rfl, rfl⟩ := Prod.mk.inj hself
        exact ⟨path, .refl, rfl, rfl⟩
      · obtain ⟨inlined, hinlined⟩ := hinner statement hstatement
        obtain ⟨other, hreach, hfile⟩ := (ih hinlined).1 hmem
        exact ⟨other, hreach.head ⟨text, htext, statement, hstatement, rfl⟩, hfile⟩
    · rintro ⟨other, hreach, rfl, rfl⟩
      rcases hreach.cases_head with rfl | ⟨next, ⟨content, hcontent, statement, hstatement, rfl⟩,
        hrest⟩
      · exact .inl rfl
      · obtain rfl := Except.ok.inj (htext.symm.trans hcontent)
        obtain ⟨inlined, hinlined⟩ := hinner statement hstatement
        exact .inr ⟨statement, hstatement, (ih hinlined).2 ⟨other, hrest, rfl, rfl⟩⟩

/-- Where flattening comes to an end, every stylesheet that is reached can be read. -/
theorem exists_sourceText_of_flattenWithin
    (h : (flattenWithin d root extension depth path).result = .ok out) {other : String}
    (hreach : Relation.ReflTransGen (Reads d root extension) path other) :
    ∃ text, sourceText d extension other = .ok text := by
  induction depth generalizing path out with
  | zero => cases h
  | succ depth ih =>
    obtain ⟨text, htext, -, hinner⟩ := reads_flattenWithin_succ h
    rcases hreach.cases_head with rfl | ⟨next, ⟨content, hcontent, statement, hstatement, rfl⟩,
      hrest⟩
    · exact ⟨text, htext⟩
    · obtain rfl := Except.ok.inj (htext.symm.trans hcontent)
      obtain ⟨inlined, hinlined⟩ := hinner statement hstatement
      exact ih hinlined hrest

/-- Where flattening comes to an end, so does every chain of imports. -/
theorem acc_of_flattenWithin
    (h : (flattenWithin d root extension depth path).result = .ok out) :
    Acc (Function.swap (Reads d root extension)) path := by
  induction depth generalizing path out with
  | zero => cases h
  | succ depth ih =>
    obtain ⟨text, htext, -, hinner⟩ := reads_flattenWithin_succ h
    refine .intro _ ?_
    rintro other ⟨content, hcontent, statement, hstatement, rfl⟩
    obtain rfl := Except.ok.inj (htext.symm.trans hcontent)
    obtain ⟨inlined, hinlined⟩ := hinner statement hstatement
    exact ih hinlined

/-! ## Files that are opened -/

/-- The file that a read of a path opens, if it opens one. -/
def Reading.opened? (path : String) : Reading → Option String
  | .direct _ => some path
  | .swapped _ => some (counterpart path)
  | .unresolved | .fatal .. => none

/-- The file that the read for a given path opens, if it opens one. -/
def openedFor? (d : Disk) (extension path : String) : Option String :=
  (read d (entryPath extension path)).opened? (entryPath extension path)

/-- The files that flattening opens, in order. -/
def Flattening.opened (f : Flattening) : List String :=
  f.reads.filterMap fun (path, reading) => reading.opened? path

/-- Flattening that comes to an end has opened exactly the files that are opened for the stylesheets
that are reached. -/
theorem mem_opened_flattenWithin
    (h : (flattenWithin d root extension depth path).result = .ok out) {file : String} :
    file ∈ (flattenWithin d root extension depth path).opened ↔
      ∃ other, Relation.ReflTransGen (Reads d root extension) path other ∧
        openedFor? d extension other = some file := by
  rw [Flattening.opened, List.mem_filterMap]
  constructor
  · rintro ⟨⟨entry, reading⟩, hmem, hopened⟩
    obtain ⟨other, hreach, rfl, rfl⟩ := (mem_reads_flattenWithin h).1 hmem
    exact ⟨other, hreach, hopened⟩
  · rintro ⟨other, hreach, hopened⟩
    exact ⟨_, (mem_reads_flattenWithin h).2 ⟨other, hreach, rfl, rfl⟩, hopened⟩

end StyleBundle.Import
