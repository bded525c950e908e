import StyleBundle.Proofs.Cache.Damage
import StyleBundle.Proofs.Import.Flatten

/-!
# What ends flattening

Flattening ends at the first read that fails, and only there, unless the imports come back to a
stylesheet on the way to them. A read fails for what stands on the disk, for bytes that are no
UTF-8, or for a NUL in its path.
-/

namespace StyleBundle.Import

variable {d : Disk} {root extension path : String} {failure : Failure}

/-- The counterpart of a path holds a NUL exactly if the path does. -/
theorem nul_mem_counterpart : '\x00' ∈ (counterpart path).toList ↔ '\x00' ∈ path.toList := by
  have hbraced : '\x00' ∉ bracedExtension.toList := by decide
  have hindented : '\x00' ∉ indentedExtension.toList := by decide
  unfold counterpart
  split
  next stem h =>
    rw [dropEnd?_eq_some_iff] at h
    subst h
    simp [hbraced, hindented]
  next =>
    split
    next stem h =>
      rw [dropEnd?_eq_some_iff] at h
      subst h
      simp [hbraced, hindented]
    next => rfl

variable [Limits]

/-! ## Reads that fail -/

/-- What the disk refuses is no text either. -/
theorem readText_of_refused {fault : Disk.Fault} (h : d.readBytes path = .error fault) :
    d.readText path = .error (.disk fault) := by
  rw [Disk.readText, h]

/-- Where a path and its counterpart are missing nothing is found. -/
theorem read_of_missing (h : d.readBytes path = .error (.refused .missing path))
    (h' : d.readBytes (counterpart path) = .error (.refused .missing (counterpart path))) :
    read d path = .unresolved :=
  goes_iff.1 (.unresolved ⟨path, readText_of_refused h⟩ (readText_of_refused h'))

/-- A path with a NUL is not read. -/
theorem text_read_of_nul (h : '\x00' ∈ path.toList) :
    (read d path).text = .error (.disk (.nul none)) := by
  have htext : d.readText path = .error (.disk (.nul none)) :=
    (Cache.Escapes.nul h : Cache.Escapes d path _).readText_eq
  rw [read, htext]
  rfl

/-- A read fails with what the disk refuses, for bytes that are no UTF-8, or for a NUL. -/
theorem refused_or_undecodable_or_nul_of_read (h : (read d path).text = .error failure) :
    (∃ cause p, failure = .disk (.refused cause p)) ∨ (∃ fault, failure = .undecodable fault) ∨
      failure = .disk (.nul none) ∧ '\x00' ∈ path.toList := by
  have htext {file : String} (h : d.readText file = .error failure) :
      (∃ cause p, failure = .disk (.refused cause p)) ∨ (∃ fault, failure = .undecodable fault) ∨
        failure = .disk (.nul none) ∧ '\x00' ∈ file.toList := by
    obtain ⟨cause, rfl⟩ | hescapes := Cache.refused_or_escapes_of_readText h
    · exact .inl ⟨cause, file, rfl⟩
    · cases hescapes with
      | undecodable => exact .inr (.inl ⟨_, rfl⟩)
      | nul hnul => exact .inr (.inr ⟨rfl, hnul⟩)
  have hgoes := goes d path
  generalize read d path = reading at hgoes h
  cases hgoes with
  | direct | swapped | unresolved => cases h
  | first hfails =>
    obtain rfl := Except.error.inj h
    exact htext hfails
  | second _ hfails =>
    obtain rfl := Except.error.inj h
    rw [← nul_mem_counterpart]
    exact htext hfails

/-! ## Flattening that fails -/

/-- The reads of a flattening tell how it ends. -/
structure Flattening.Tells (d : Disk) (f : Flattening) : Prop where
  /-- A read is what the disk gives. -/
  read_eq : ∀ path reading, (path, reading) ∈ f.reads → reading = read d path
  /-- A read that fails ends the work. -/
  ends : ∀ path reading failure, (path, reading) ∈ f.reads → reading.text = .error failure →
    f.result = .error failure
  /-- The work ends early at a read that fails, or for imports that come back. -/
  cause : ∀ failure, f.result = .error failure → failure = .importCycle ∨
    ∃ path reading, (path, reading) ∈ f.reads ∧ reading.text = .error failure

/-- Replacing statements tells how it ends if flattening their targets does. -/
theorem tells_replaceStatements {f : String → Flattening} (hf : ∀ target, (f target).Tells d)
    (statements : List Statement) (s : List Char) : (replaceStatements f statements s).Tells d := by
  induction statements generalizing s with
  | nil =>
    refine ⟨fun _ _ h => ?_, fun _ _ _ h => ?_, fun _ h => ?_⟩
    · cases h
    · cases h
    · cases h
  | cons statement rest ih =>
    have hinner := hf statement.target
    cases hresult : (f statement.target).result with
    | error failure =>
      rw [replaceStatements_of_error hresult]
      refine ⟨hinner.read_eq, fun path reading other hmem htext => ?_, fun other hother => ?_⟩
      · exact hresult.symm.trans (hinner.ends path reading other hmem htext)
      · obtain rfl := Except.error.inj hother
        exact hinner.cause _ hresult
    | ok text =>
      have houter := ih (removeStatement statement.text.toList s ++ text)
      rw [replaceStatements_of_ok hresult]
      refine ⟨fun path reading hmem => ?_, fun path reading other hmem htext => ?_,
        fun other hother => ?_⟩
      · rcases List.mem_append.1 hmem with hmem | hmem
        · exact hinner.read_eq path reading hmem
        · exact houter.read_eq path reading hmem
      · rcases List.mem_append.1 hmem with hmem | hmem
        · cases hresult.symm.trans (hinner.ends path reading other hmem htext)
        · exact houter.ends path reading other hmem htext
      · rcases houter.cause other hother with hcycle | ⟨path, reading, hmem, htext⟩
        · exact .inl hcycle
        · exact .inr ⟨path, reading, List.mem_append_right _ hmem, htext⟩

/-- Flattening tells how it ends. -/
theorem tells_flattenWithin (d : Disk) (root extension : String) (depth : ℕ) (path : String) :
    (flattenWithin d root extension depth path).Tells d := by
  induction depth generalizing path with
  | zero =>
    refine ⟨fun _ _ h => ?_, fun _ _ _ h => ?_, fun _ h => .inl (Except.error.inj h).symm⟩
    · cases h
    · cases h
  | succ depth ih =>
    cases htext : sourceText d extension path with
    | error failure =>
      rw [flattenWithin_of_error htext]
      refine ⟨fun other reading hmem => ?_, fun other reading failure' hmem hfails => ?_,
        fun other hother => ?_⟩
      · obtain ⟨rfl, rfl⟩ := Prod.mk.inj (List.mem_singleton.1 hmem)
        rfl
      · obtain ⟨rfl, rfl⟩ := Prod.mk.inj (List.mem_singleton.1 hmem)
        rw [Except.error.inj (htext.symm.trans hfails)]
      · obtain rfl := Except.error.inj hother
        exact .inr ⟨_, _, List.mem_singleton_self _, htext⟩
    | ok text =>
      have hinner := tells_replaceStatements
        (fun target => ih (targetPath root extension path target)) (statements text) text.toList
      rw [flattenWithin_of_ok htext]
      refine ⟨fun other reading hmem => ?_, fun other reading failure hmem hfails => ?_,
        fun other hother => ?_⟩
      · rcases List.mem_cons.1 hmem with hself | hmem
        · obtain ⟨rfl, rfl⟩ := Prod.mk.inj hself
          rfl
        · exact hinner.read_eq other reading hmem
      · rcases List.mem_cons.1 hmem with hself | hmem
        · obtain ⟨rfl, rfl⟩ := Prod.mk.inj hself
          cases htext.symm.trans hfails
        · exact hinner.ends other reading failure hmem hfails
      · rcases hinner.cause other hother with hcycle | ⟨other, reading, hmem, hfails⟩
        · exact .inl hcycle
        · exact .inr ⟨other, reading, List.mem_cons_of_mem _ hmem, hfails⟩

/-- Flattening fails for imports that come back, or as a read does. -/
theorem cycle_or_fault_of_result {depth : ℕ}
    (h : (flattenWithin d root extension depth path).result = .error failure) :
    failure = .importCycle ∨ (∃ cause p, failure = .disk (.refused cause p)) ∨
      (∃ fault, failure = .undecodable fault) ∨ failure = .disk (.nul none) := by
  have htells := tells_flattenWithin d root extension depth path
  rcases htells.cause failure h with hcycle | ⟨file, reading, hmem, hfails⟩
  · exact .inl hcycle
  · rw [htells.read_eq file reading hmem] at hfails
    rcases refused_or_undecodable_or_nul_of_read hfails with hrefused | hbytes | ⟨hnul, -⟩
    · exact .inr (.inl hrefused)
    · exact .inr (.inr (.inl hbytes))
    · exact .inr (.inr (.inr hnul))

/-- Flattening fails for a NUL exactly if it comes to a path with one. -/
theorem result_eq_nul_iff {depth : ℕ} :
    (flattenWithin d root extension depth path).result = .error (.disk (.nul none)) ↔
      ∃ file reading, (file, reading) ∈ (flattenWithin d root extension depth path).reads ∧
        '\x00' ∈ file.toList := by
  have htells := tells_flattenWithin d root extension depth path
  constructor
  · intro h
    obtain hcycle | ⟨file, reading, hmem, hfails⟩ := htells.cause _ h
    · cases hcycle
    · rw [htells.read_eq file reading hmem] at hfails
      obtain ⟨_, _, hother⟩ | ⟨_, hother⟩ | ⟨-, hnul⟩ :=
        refused_or_undecodable_or_nul_of_read hfails
      · cases hother
      · cases hother
      · exact ⟨file, reading, hmem, hnul⟩
  · rintro ⟨file, reading, hmem, hnul⟩
    refine htells.ends file reading _ hmem ?_
    rw [htells.read_eq file reading hmem]
    exact text_read_of_nul hnul

end StyleBundle.Import
