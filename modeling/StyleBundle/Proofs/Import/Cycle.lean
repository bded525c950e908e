import Mathlib.Data.List.Dedup
import Mathlib.Data.Set.Finite.List
import StyleBundle.Proofs.Import.Order

/-!
# Imports that come back

There is no record of what has been flattened. Flattening ends because a chain of imports runs out
of files to go through, and it goes on for ever exactly where it comes back to a path that it is
still in the middle of.
-/

namespace StyleBundle.Import

variable {d : Disk} {root extension entry path next : String} {depth : ℕ} {run : Flattening}

/-- Replacing statements does not lack depth only if the flattening of a target does not, where
nothing but depth stops it before. -/
theorem ne_cycle_of_replaceStatements {f : String → Flattening} {before after : List Statement}
    {statement : Statement} {s : List Char}
    (hbefore : ∀ earlier ∈ before, (∃ out, (f earlier.target).result = .ok out) ∨
      (f earlier.target).result = .error .importCycle)
    (h : (replaceStatements f (before ++ statement :: after) s).result ≠ .error .importCycle) :
    (f statement.target).result ≠ .error .importCycle ∧
      (f statement.target).reads ⊆ (replaceStatements f (before ++ statement :: after) s).reads := by
  induction before generalizing s with
  | nil =>
    rw [List.nil_append] at h ⊢
    cases hresult : (f statement.target).result with
    | error failure =>
      rw [replaceStatements_of_error hresult] at h ⊢
      exact ⟨h, List.Subset.refl _⟩
    | ok out =>
      rw [replaceStatements_of_ok hresult]
      exact ⟨by simp, List.subset_append_left ..⟩
  | cons earlier rest ih =>
    rw [List.cons_append] at h ⊢
    rcases hbefore earlier (List.mem_cons_self ..) with ⟨out, hout⟩ | hcycle
    · rw [replaceStatements_of_ok hout] at h ⊢
      obtain ⟨hne, hreads⟩ := ih (fun other hother => hbefore other (List.mem_cons_of_mem _ hother)) h
      exact ⟨hne, List.subset_append_of_subset_right _ hreads⟩
    · rw [replaceStatements_of_error hcycle] at h
      exact absurd rfl h

section Limited

variable [Limits]

/-! ## Going down the imports in order -/

/-- Everything that is read for the stylesheet at a path is read without a failure. -/
def Completes (d : Disk) (root extension path : String) : Prop :=
  ∃ order, Preorder d root extension path order ∧ firstFailure? d order = none

/-- Flattening the stylesheet at a path comes to one of those that it imports: everything that is
imported before is read to its end. -/
def ComesTo (d : Disk) (root extension path next : String) : Prop :=
  ∃ before statement after, statementsAt d extension path = before ++ statement :: after ∧
    (∀ earlier ∈ before,
      Completes d root extension (targetPath root extension path earlier.target)) ∧
    next = targetPath root extension path statement.target

/-- What flattening comes to is imported. -/
theorem ComesTo.reads (h : ComesTo d root extension path next) : Reads d root extension path next := by
  obtain ⟨before, statement, after, hstatements, -, hnext⟩ := h
  refine reads_iff.2 ⟨statement, ?_, hnext⟩
  rw [hstatements]
  exact List.mem_append_right _ (List.mem_cons_self ..)

/-- Where flattening gives a text, everything is read without a failure. -/
theorem completes_of_ok {out : List Char}
    (h : (flattenWithin d root extension depth path).result = .ok out) :
    Completes d root extension path := by
  obtain ⟨order, horder⟩ := exists_preorder (acc_of_flattenWithin h)
  obtain ⟨run, hends, hfollows⟩ := horder.exists_ends
  have hne : (flattenWithin d root extension depth path).result ≠ .error .importCycle := by simp [h]
  obtain rfl := hends.eq_of_ne hne
  exact ⟨order, horder, hfollows.exists_ok_iff.1 ⟨out, h⟩⟩

/-- Where everything is read without a failure, flattening gives a text unless it lacks depth. -/
theorem Completes.ok_or_cycle (h : Completes d root extension path) (depth : ℕ) :
    (∃ out, (flattenWithin d root extension depth path).result = .ok out) ∨
      (flattenWithin d root extension depth path).result = .error .importCycle := by
  obtain ⟨order, horder, hfirst⟩ := h
  obtain ⟨run, hends, hfollows⟩ := horder.exists_ends
  by_cases hcycle : (flattenWithin d root extension depth path).result = .error .importCycle
  · exact .inr hcycle
  · rw [hends.eq_of_ne hcycle]
    exact .inl (hfollows.exists_ok_iff.2 hfirst)

/-- Flattening that has depth enough has it for what it comes to, and reads all that is read there.
-/
theorem ComesTo.ne_cycle (h : ComesTo d root extension path next)
    (hne : (flattenWithin d root extension (depth + 1) path).result ≠ .error .importCycle) :
    (flattenWithin d root extension depth next).result ≠ .error .importCycle ∧
      (flattenWithin d root extension depth next).reads ⊆
        (flattenWithin d root extension (depth + 1) path).reads := by
  obtain ⟨before, statement, after, hstatements, hbefore, rfl⟩ := h
  cases htext : sourceText d extension path with
  | error failure =>
    rw [statementsAt_of_error htext] at hstatements
    cases before <;> cases hstatements
  | ok text =>
    rw [statementsAt_of_ok htext] at hstatements
    rw [flattenWithin_of_ok htext, hstatements] at hne ⊢
    obtain ⟨hnext, hreads⟩ := ne_cycle_of_replaceStatements
      (f := fun target => flattenWithin d root extension depth
        (targetPath root extension path target))
      (fun earlier hearlier => (hbefore earlier hearlier).ok_or_cycle depth) hne
    exact ⟨hnext, List.subset_cons_of_subset _ hreads⟩

/-- Flattening that has depth enough has it for all that it comes to, and reads it. -/
theorem ne_cycle_of_reaches (h : Relation.ReflTransGen (ComesTo d root extension) path next)
    (hne : (flattenWithin d root extension depth path).result ≠ .error .importCycle) :
    ∃ less, less ≤ depth ∧ (path = next ∨ less < depth) ∧
      (flattenWithin d root extension less next).result ≠ .error .importCycle ∧
      (flattenWithin d root extension less next).reads ⊆
        (flattenWithin d root extension depth path).reads := by
  induction h using Relation.ReflTransGen.head_induction_on generalizing depth with
  | refl => exact ⟨depth, Nat.le_refl depth, .inl rfl, hne, List.Subset.refl _⟩
  | head hstep _ ih =>
    cases depth with
    | zero => exact absurd rfl hne
    | succ depth =>
      obtain ⟨hnext, hreads⟩ := hstep.ne_cycle hne
      obtain ⟨less, hle, -, hless, hsubset⟩ := ih hnext
      exact ⟨less, by omega, .inr (by omega), hless, List.Subset.trans hsubset hreads⟩

/-- Flattening that comes to an end reads every path that it comes to. -/
theorem Ends.mem_reads (hends : Ends d root extension entry run)
    (h : Relation.ReflTransGen (ComesTo d root extension) entry path) :
    (entryPath extension path, read d (entryPath extension path)) ∈ run.reads := by
  obtain ⟨depth, rfl, hne⟩ := hends
  obtain ⟨less, -, -, hless, hreads⟩ := ne_cycle_of_reaches h hne
  cases less with
  | zero => exact absurd rfl hless
  | succ less =>
    refine hreads ?_
    cases htext : sourceText d extension path with
    | error failure =>
      rw [flattenWithin_of_error htext]
      exact List.mem_singleton_self _
    | ok text =>
      rw [flattenWithin_of_ok htext]
      exact List.mem_cons_self ..

/-! ## Coming back -/

/-- What stands at a path and where its imports are found depends on the path that is read for it
only. -/
theorem flattenWithin_congr_entryPath (hextension : '/' ∉ extension.toList)
    (h : entryPath extension next = entryPath extension path) :
    flattenWithin d root extension depth next = flattenWithin d root extension depth path := by
  have htarget : targetPath root extension next = targetPath root extension path := by
    funext target
    rw [targetPath, targetPath, ← dropLast_segments_entryPath hextension next, h,
      dropLast_segments_entryPath hextension]
  cases depth with
  | zero => rfl
  | succ depth => rw [flattenWithin, flattenWithin, flattenReading, flattenReading, h, htarget]

/-- Flattening that comes back to a path that it is still in the middle of lacks depth, however much
it is given. Depth enough for the path would be enough for its return, which has less. -/
theorem cycle_of_return (hextension : '/' ∉ extension.toList)
    (hreach : Relation.ReflTransGen (ComesTo d root extension) entry path)
    (hreturn : Relation.TransGen (ComesTo d root extension) path next)
    (hsame : entryPath extension next = entryPath extension path) (depth : ℕ) :
    (flattenWithin d root extension depth entry).result = .error .importCycle := by
  have hpath (depth : ℕ) :
      (flattenWithin d root extension depth path).result = .error .importCycle := by
    induction depth using Nat.strongRecOn with
    | ind depth ih =>
      by_contra hne
      obtain ⟨middle, hstep, hrest⟩ := Relation.TransGen.head'_iff.1 hreturn
      cases depth with
      | zero => exact hne rfl
      | succ depth =>
        obtain ⟨less, hle, -, hless, -⟩ := ne_cycle_of_reaches hrest (hstep.ne_cycle hne).1
        rw [flattenWithin_congr_entryPath hextension hsame] at hless
        exact hless (ih less (by omega))
  by_contra hne
  obtain ⟨less, -, -, hless, -⟩ := ne_cycle_of_reaches hreach hne
  exact hless (hpath less)

/-! ## Running out of names -/

/-- Where flattening lacks depth, it comes to a stylesheet for which it lacks depth. -/
theorem exists_comesTo_of_cycle
    (h : (flattenWithin d root extension (depth + 1) path).result = .error .importCycle) :
    ∃ next, ComesTo d root extension path next ∧
      (flattenWithin d root extension depth next).result = .error .importCycle := by
  have hstatements {f : String → Flattening} {statements : List Statement} {s : List Char}
      (h : (replaceStatements f statements s).result = .error .importCycle) :
      ∃ before statement after, statements = before ++ statement :: after ∧
        (∀ earlier ∈ before, ∃ out, (f earlier.target).result = .ok out) ∧
        (f statement.target).result = .error .importCycle := by
    induction statements generalizing s with
    | nil => cases h
    | cons statement rest ih =>
      cases hresult : (f statement.target).result with
      | error failure =>
        rw [replaceStatements_of_error hresult] at h
        exact ⟨[], statement, rest, rfl, by simp, hresult.trans h⟩
      | ok out =>
        rw [replaceStatements_of_ok hresult] at h
        obtain ⟨before, other, after, rfl, hbefore, hother⟩ := ih h
        exact ⟨statement :: before, other, after, rfl,
          List.forall_mem_cons.2 ⟨⟨out, hresult⟩, hbefore⟩, hother⟩
  cases htext : sourceText d extension path with
  | error failure =>
    rw [flattenWithin_of_error htext, Except.error.injEq] at h
    subst h
    rcases refused_or_undecodable_or_nul_of_read htext with ⟨_, _, h⟩ | ⟨_, h⟩ | ⟨h, -⟩ <;> cases h
  | ok text =>
    rw [flattenWithin_of_ok htext] at h
    obtain ⟨before, statement, after, hsplit, hbefore, hcycle⟩ := hstatements h
    refine ⟨_, ⟨before, statement, after, ?_, fun earlier hearlier => ?_, rfl⟩, hcycle⟩
    · rw [statementsAt_of_ok htext, hsplit]
    · obtain ⟨out, hout⟩ := hbefore earlier hearlier
      exact completes_of_ok hout

section Names

-- Stylesheets with imports have names, and no two on a chain have the same one.
variable {α : Type} {name : String → α} {names : List α}
  (hmem : ∀ p q, Relation.ReflTransGen (ComesTo d root extension) entry p →
    ComesTo d root extension p q → name p ∈ names)
  (hdiffer : ∀ p q r, Relation.ReflTransGen (ComesTo d root extension) entry p →
    Relation.TransGen (ComesTo d root extension) p q → ComesTo d root extension q r →
      name p ≠ name q)
include hmem hdiffer

/-- Flattening has depth enough where the depth and the stylesheets on the way are more than there
are names for stylesheets with imports, as long as no two on a chain have one name. The trail grows
by one name where the depth shrinks by one. -/
theorem ne_cycle_of_trail
    (hpath : Relation.ReflTransGen (ComesTo d root extension) entry path) {trail : List α}
    (hnodup : trail.Nodup) (hnames : trail ⊆ names)
    (htrail : ∀ a ∈ trail, ∃ p, Relation.ReflTransGen (ComesTo d root extension) entry p ∧
      Relation.TransGen (ComesTo d root extension) p path ∧ name p = a)
    (hdepth : names.length < depth + trail.length) :
    (flattenWithin d root extension depth path).result ≠ .error .importCycle := by
  induction depth generalizing path trail with
  | zero =>
    have hle := (hnodup.subperm hnames).length_le
    omega
  | succ depth ih =>
    intro hcycle
    obtain ⟨next, hnext, hlacks⟩ := exists_comesTo_of_cycle hcycle
    have hnew : name path ∉ trail := by
      intro hold
      obtain ⟨p, hp, hway, hsame⟩ := htrail _ hold
      exact hdiffer p path next hp hway hnext hsame
    refine ih (hpath.tail hnext) (List.nodup_cons.2 ⟨hnew, hnodup⟩)
      (List.cons_subset.2 ⟨hmem path next hpath hnext, hnames⟩) ?_ ?_ hlacks
    · intro a ha
      rcases List.mem_cons.1 ha with rfl | ha
      · exact ⟨path, hpath, .single hnext, rfl⟩
      · obtain ⟨p, hp, hway, hsame⟩ := htrail a ha
        exact ⟨p, hp, hway.tail hnext, hsame⟩
    · simp only [List.length_cons]
      omega

/-- Flattening needs one more than there are names for stylesheets with imports. -/
theorem ne_cycle_of_names
    (hdepth : names.length < depth) :
    (flattenWithin d root extension depth entry).result ≠ .error .importCycle :=
  ne_cycle_of_trail hmem hdiffer .refl List.nodup_nil (List.nil_subset _) (by simp) hdepth

end Names

/-! ## Paths that are read on a chain -/

/-- The paths that the read of a path tries. -/
def Reading.tried (path : String) : Reading → List String
  | .direct _ | .fatal _ false => [path]
  | .swapped _ | .unresolved | .fatal _ true => [path, counterpart path]

/-- The paths that the read for a given path tries. -/
def triedFor (d : Disk) (extension path : String) : List String :=
  (read d (entryPath extension path)).tried (entryPath extension path)

/-- The counterpart of a path is tried if the path is missing. -/
theorem eq_or_missing_of_mem_tried {file : String} (h : file ∈ (read d path).tried path) :
    file = path ∨ file = counterpart path ∧ IsMissing d path := by
  have hgoes := goes d path
  generalize read d path = reading at h hgoes
  cases hgoes with
  | direct | first => exact .inl (List.mem_singleton.1 h)
  | swapped hmissing | unresolved hmissing | second hmissing =>
    rcases List.mem_cons.1 h with rfl | h
    · exact .inl rfl
    · exact .inr ⟨List.mem_singleton.1 h, hmissing⟩

/-- A file that is opened is that of the path, or that of the counterpart of a missing path. -/
theorem eq_or_missing_of_opened? {file : String} (h : (read d path).opened? path = some file) :
    ∃ text, d.readText file = .ok text ∧ (read d path).text = .ok text ∧
      (file = path ∨ file = counterpart path ∧ IsMissing d path) := by
  have hgoes := goes d path
  generalize read d path = reading at h hgoes
  cases hgoes with
  | direct hread =>
    obtain rfl := Option.some.inj h
    exact ⟨_, hread, rfl, .inl rfl⟩
  | swapped hmissing hread =>
    obtain rfl := Option.some.inj h
    exact ⟨_, hread, rfl, .inr ⟨rfl, hmissing⟩⟩
  | unresolved | first | second => cases h

/-- For a stylesheet with imports a file is opened. -/
theorem exists_openedFor? (h : Reads d root extension path next) :
    ∃ file, openedFor? d extension path = some file := by
  obtain ⟨text, htext, statement, hstatement, -⟩ := h
  unfold sourceText at htext
  unfold openedFor?
  cases hread : read d (entryPath extension path) with
  | direct => exact ⟨_, rfl⟩
  | swapped => exact ⟨_, rfl⟩
  | unresolved =>
    rw [hread] at htext
    obtain rfl := Except.ok.inj htext
    rw [statements, String.toList_empty, scan] at hstatement
    cases hstatement
  | fatal =>
    rw [hread] at htext
    cases htext

/-- Stylesheets for which one file is opened import the same. -/
theorem comesTo_congr {other file : String} (hextension : '/' ∉ extension.toList)
    (hpath : openedFor? d extension path = some file)
    (hother : openedFor? d extension other = some file) :
    ComesTo d root extension path next ↔ ComesTo d root extension other next := by
  have hplace {name : String} (h : openedFor? d extension name = some file) :
      (Path.segments name).dropLast = (Path.segments file).dropLast := by
    obtain ⟨-, -, -, rfl | ⟨rfl, -⟩⟩ := eq_or_missing_of_opened? h
    · rw [dropLast_segments_entryPath hextension]
    · rw [dropLast_segments_counterpart, dropLast_segments_entryPath hextension]
  obtain ⟨text, htext, hsource, -⟩ := eq_or_missing_of_opened? hpath
  obtain ⟨text', htext', hsource', -⟩ := eq_or_missing_of_opened? hother
  obtain rfl := Except.ok.inj (htext.symm.trans htext')
  have hstatements : statementsAt d extension path = statementsAt d extension other :=
    (statementsAt_of_ok hsource).trans (statementsAt_of_ok hsource').symm
  simp only [ComesTo, targetPath, hstatements, hplace hpath, hplace hother]

/-- Where a file is opened for a path, a path that tries one of the paths that were tried for it is
the same, or the same file is opened for it. -/
theorem eq_or_opened?_eq {entry other file opened : String}
    (hopened : (read d entry).opened? entry = some opened)
    (hfile : file ∈ (read d entry).tried entry) (hother : file ∈ (read d other).tried other) :
    other = entry ∨ (read d other).opened? other = some opened := by
  obtain ⟨text, htext, -, hplace⟩ := eq_or_missing_of_opened? hopened
  have hstands {name : String} (hmissing : IsMissing d name) : opened ≠ name := by
    rintro rfl
    obtain ⟨_, h⟩ := hmissing
    cases htext.symm.trans h
  have hswapped (hmissing : IsMissing d other) (h : counterpart other = opened) :
      (read d other).opened? other = some opened := by
    rw [goes_iff.1 (.swapped hmissing (h ▸ htext)), Reading.opened?, h]
  have hdirect (h : other = opened) : (read d other).opened? other = some opened := by
    rw [goes_iff.1 (.direct (h ▸ htext)), Reading.opened?, h]
  rcases eq_or_missing_of_mem_tried hfile with rfl | ⟨rfl, hmissing⟩ <;>
    rcases eq_or_missing_of_mem_tried hother with hsame | ⟨hsame, hmissing'⟩
  · exact .inl hsame.symm
  · rcases hplace with rfl | ⟨rfl, -⟩
    · exact .inr (hswapped hmissing' hsame.symm)
    · exact absurd (by rw [hsame, counterpart_counterpart]) (hstands hmissing')
  · rcases hplace with rfl | ⟨rfl, -⟩
    · exact absurd rfl (hstands hmissing)
    · exact .inr (hdirect hsame.symm)
  · left
    rw [← counterpart_counterpart other, ← hsame, counterpart_counterpart]

/-! ## Ending and never ending -/

/-- Flattening never comes back to a path that it is still in the middle of. -/
def NeverReturns (d : Disk) (root extension entry : String) : Prop :=
  ∀ p q, Relation.ReflTransGen (ComesTo d root extension) entry p →
    Relation.TransGen (ComesTo d root extension) p q → entryPath extension p ≠ entryPath extension q

/-- The files that are opened for the stylesheets with imports that are reached. -/
def chainFiles (d : Disk) (root extension entry : String) : Set String :=
  {file | ∃ path, Relation.ReflTransGen (Reads d root extension) entry path ∧
    (∃ next, Reads d root extension path next) ∧ openedFor? d extension path = some file}

/-- What flattening comes to on the way is reached by imports. -/
theorem reaches_of_comesTo (h : Relation.ReflTransGen (ComesTo d root extension) entry path) :
    Relation.ReflTransGen (Reads d root extension) entry path :=
  Relation.ReflTransGen.mono (fun _ _ hstep => ComesTo.reads hstep) _ _ h

/-- Where flattening never comes back to a path, it does not open a file either that is open for one
on the way. The import by which it left the first of the two would be the way on from the other. -/
theorem NeverReturns.opened_ne {p q file : String} (h : NeverReturns d root extension entry)
    (hextension : '/' ∉ extension.toList)
    (hreach : Relation.ReflTransGen (ComesTo d root extension) entry p)
    (hway : Relation.TransGen (ComesTo d root extension) p q)
    (hp : openedFor? d extension p = some file) : openedFor? d extension q ≠ some file := by
  intro hq
  obtain ⟨next, hnext, hrest⟩ := Relation.TransGen.head'_iff.1 hway
  exact h next next (hreach.tail hnext)
    (Relation.TransGen.tail' hrest ((comesTo_congr hextension hp hq).1 hnext)) rfl

/-- Flattening that comes to an end never comes back. -/
theorem Ends.neverReturns (h : Ends d root extension entry run)
    (hextension : '/' ∉ extension.toList) : NeverReturns d root extension entry := by
  obtain ⟨depth, rfl, hne⟩ := h
  exact fun p q hreach hway hsame => hne (cycle_of_return hextension hreach hway hsame.symm depth)

/-- Flattening that never comes back needs one level more than there are files to open on the way. -/
theorem NeverReturns.ne_cycle_of_files (h : NeverReturns d root extension entry)
    (hextension : '/' ∉ extension.toList) {files : List String}
    (hfiles : ∀ p q file, Relation.ReflTransGen (ComesTo d root extension) entry p →
      ComesTo d root extension p q → openedFor? d extension p = some file → file ∈ files)
    (hdepth : files.length < depth) :
    (flattenWithin d root extension depth entry).result ≠ .error .importCycle := by
  have hmem (p q : String) (hreach : Relation.ReflTransGen (ComesTo d root extension) entry p)
      (hnext : ComesTo d root extension p q) : openedFor? d extension p ∈ files.map some := by
    obtain ⟨file, hfile⟩ := exists_openedFor? hnext.reads
    rw [hfile]
    exact List.mem_map_of_mem (hfiles p q file hreach hnext hfile)
  refine ne_cycle_of_names hmem (fun p q r hreach hway hnext hsame => ?_) ?_
  · obtain ⟨file, hfile⟩ := exists_openedFor? hnext.reads
    exact h.opened_ne hextension hreach hway (hsame.trans hfile) hfile
  · rwa [List.length_map]

/-- Flattening that never comes back comes to an end, where only finitely many files can be opened
on the way. -/
theorem NeverReturns.exists_ends (h : NeverReturns d root extension entry)
    (hextension : '/' ∉ extension.toList) (hfinite : (chainFiles d root extension entry).Finite) :
    ∃ run, Ends d root extension entry run := by
  have hfiles (p q file : String) (hreach : Relation.ReflTransGen (ComesTo d root extension) entry p)
      (hnext : ComesTo d root extension p q) (hfile : openedFor? d extension p = some file) :
      file ∈ hfinite.toFinset.toList :=
    Finset.mem_toList.2 (hfinite.mem_toFinset.2
      ⟨p, reaches_of_comesTo hreach, ⟨q, hnext.reads⟩, hfile⟩)
  exact ⟨_, _, rfl, h.ne_cycle_of_files hextension hfiles (Nat.lt_succ_self _)⟩

/-- Flattening that comes to an end needs one level more than it opens files. -/
theorem Ends.eq_of_length_lt (h : Ends d root extension entry run)
    (hextension : '/' ∉ extension.toList) (hdepth : run.opened.dedup.length < depth) :
    flattenWithin d root extension depth entry = run := by
  refine h.eq_of_ne ((h.neverReturns hextension).ne_cycle_of_files hextension ?_ hdepth)
  intro p q file hreach hnext hfile
  exact List.mem_dedup.2 (List.mem_filterMap.2 ⟨_, h.mem_reads hreach, hfile⟩)

/-- Below an absolute root flattening that comes to an end does so within the bound on the depth, if
that is the only one. -/
theorem Ends.flatten_eq (h : Ends d root extension entry run)
    (hunbounded : Limits.flattenDepth = none) (hroot : Path.isAbsolute (root ++ "/") = true)
    (hextension : '/' ∉ extension.toList) : flatten d root extension entry = run := by
  have hlength := length_chainNames_lt d extension
  have hmem (p q : String) (hreach : Relation.ReflTransGen (ComesTo d root extension) entry p)
      (hnext : ComesTo d root extension p q) : id p ∈ entry :: chainNames d extension := by
    obtain ⟨text, htext, statement, hstatement, -⟩ := hnext.reads
    exact mem_cons_chainNames hroot hextension (reaches_of_comesTo hreach) htext
      (List.ne_nil_of_mem hstatement)
  rw [flatten_of_unbounded hunbounded]
  refine h.eq_of_ne (ne_cycle_of_names hmem (fun p q r hreach hway _ hsame => ?_) ?_)
  · exact h.neverReturns hextension p q hreach hway (congrArg _ hsame)
  · simpa using hlength

/-- Below an absolute root only finitely many files can be opened on the way. -/
theorem finite_chainFiles (hroot : Path.isAbsolute (root ++ "/") = true)
    (hextension : '/' ∉ extension.toList) : (chainFiles d root extension entry).Finite := by
  refine Set.Finite.subset (List.finite_toSet
    ((entry :: chainNames d extension).filterMap (openedFor? d extension))) ?_
  rintro file ⟨path, hreach, ⟨next, text, htext, statement, hstatement, -⟩, hfile⟩
  exact List.mem_filterMap.2 ⟨path, mem_cons_chainNames hroot hextension hreach htext
    (List.ne_nil_of_mem hstatement), hfile⟩

/-- Where paths are bounded there are finitely many that are short enough. -/
theorem finite_fits {most : ℕ} (h : Limits.pathBytes = some most) :
    {path | Disk.Fits path}.Finite := by
  have hbyte : Finite UInt8 := .of_injective UInt8.toFin fun _ _ => UInt8.toFin_inj.1
  refine ((List.finite_length_le UInt8 most).preimage
    (f := fun path : String => Text.Utf8.encode path.toList) ?_).subset fun path hpath => ?_
  · intro path _ other _ hsame
    exact String.toList_inj.1 (Text.Utf8.encode_injective hsame)
  · exact hpath most h

/-- Where paths are bounded only finitely many files can be opened at all. -/
theorem finite_chainFiles_of_bounded {most : ℕ} (h : Limits.pathBytes = some most) :
    (chainFiles d root extension entry).Finite := by
  refine (finite_fits h).subset ?_
  rintro file ⟨path, -, -, hfile⟩
  obtain ⟨text, htext, -⟩ := eq_or_missing_of_opened? hfile
  obtain ⟨bytes, changed, hlocate, -⟩ := Disk.readText_eq_ok_iff.1 htext
  exact (Disk.locate_eq_ok_iff.1 hlocate).2.2.1

/-- Flattening ends exactly where imports do not come back. As long as no chain of imports reads a
path that it has read already, flattening comes to an end, with a text or as one of its reads fails,
and goes down at most one level more than it opens files. Where it comes to a path that is tried
for a stylesheet that it is in the middle of, no depth is enough. That a chain can open finitely
many files only is clear below an absolute root and where the system bounds paths; else steps up
from a relative root can be piled up before a path. -/
theorem ends_unless_returning (hextension : '/' ∉ extension.toList) :
    (Path.isAbsolute (root ++ "/") = true ∨ (∃ most, Limits.pathBytes = some most) →
        (chainFiles d root extension entry).Finite) ∧
      ((chainFiles d root extension entry).Finite →
        (∀ p q, Relation.ReflTransGen (Reads d root extension) entry p →
          Relation.TransGen (Reads d root extension) p q →
            entryPath extension p ≠ entryPath extension q) →
        ∃ run, Ends d root extension entry run ∧
          (∀ failure, run.result = .error failure →
            ∃ file reading, (file, reading) ∈ run.reads ∧ reading.text = .error failure) ∧
          (∀ depth, run.opened.dedup.length + 1 ≤ depth →
            flattenWithin d root extension depth entry = run) ∧
          (Path.isAbsolute (root ++ "/") = true → Limits.flattenDepth = none →
            flatten d root extension entry = run)) ∧
      ∀ p q file, Relation.ReflTransGen (ComesTo d root extension) entry p →
        Relation.TransGen (ComesTo d root extension) p q → file ∈ triedFor d extension p →
          file ∈ triedFor d extension q → ∀ depth,
            (flattenWithin d root extension depth entry).result = .error .importCycle := by
  refine ⟨?_, fun hfinite hacyclic => ?_, ?_⟩
  · rintro (hroot | ⟨most, hbounded⟩)
    · exact finite_chainFiles hroot hextension
    · exact finite_chainFiles_of_bounded hbounded
  · have hnever : NeverReturns d root extension entry := fun p q hreach hway =>
      hacyclic p q (reaches_of_comesTo hreach)
        (Relation.TransGen.mono (fun _ _ hstep => ComesTo.reads hstep) _ _ hway)
    obtain ⟨run, hends⟩ := hnever.exists_ends hextension hfinite
    refine ⟨run, hends, fun failure hfailure => ?_, fun depth hdepth =>
      hends.eq_of_length_lt hextension hdepth,
      fun hroot hunbounded => hends.flatten_eq hunbounded hroot hextension⟩
    obtain ⟨depth, rfl, hne⟩ := hends
    rcases (tells_flattenWithin d root extension depth entry).cause failure hfailure with rfl | h
    · exact absurd hfailure hne
    · exact h
  · intro p q file hreach hway hp hq depth
    by_contra hne
    have hnever := Ends.neverReturns ⟨depth, rfl, hne⟩ hextension
    obtain ⟨next, hnext, -⟩ := Relation.TransGen.head'_iff.1 hway
    obtain ⟨opened, hopened⟩ := exists_openedFor? hnext.reads
    rcases eq_or_opened?_eq hopened hp hq with hsame | hsame
    · exact hnever p q hreach hway hsame.symm
    · exact hnever.opened_ne hextension hreach hway hopened hsame

end Limited

/-- A disk on which a stylesheet imports itself. -/
def loopDisk : Disk where
  nodes := [([], .directory ⟨0⟩), (["s"], .directory ⟨0⟩),
    (["s", "main.scss"], .file (Text.Utf8.encode "@import 'main';".toList) ⟨0⟩)]
  home := ["s"]
  clock := ⟨1⟩

theorem comesTo_loopDisk : ComesTo loopDisk "/s" ".scss" "/s/main.scss" "/s/main.scss" := by
  have htext : sourceText loopDisk ".scss" "/s/main.scss" = .ok "@import 'main';" :=
    sourceText_of_readBytes (by decide +kernel) (by decide)
  have hstatements : statements "@import 'main';" = [⟨"@import 'main';", "main"⟩] :=
    statements_of_parse? [] (by decide) (by decide) (by decide)
  refine ⟨[], ⟨"@import 'main';", "main"⟩, [], ?_, by simp, by decide +kernel⟩
  rw [statementsAt_of_ok htext, hstatements]
  rfl

theorem entryPath_ne_twiceDisk {p q : String}
    (hreach : Relation.ReflTransGen (Reads twiceDisk "/s" ".scss") "/s/main.scss" p)
    (hway : Relation.TransGen (Reads twiceDisk "/s" ".scss") p q) :
    entryPath ".scss" p ≠ entryPath ".scss" q := by
  obtain ⟨next, hnext, hrest⟩ := Relation.TransGen.head'_iff.1 hway
  rcases eq_or_eq_of_reaches_twiceDisk hreach with rfl | rfl
  · obtain rfl := eq_of_reads_twiceDisk_main hnext
    rcases hrest.cases_head with rfl | ⟨other, hother, -⟩
    · decide
    · exact absurd hother not_reads_twiceDisk_neighbour
  · exact absurd hnext not_reads_twiceDisk_neighbour

/-- Importing a neighbour twice comes to an end, importing oneself does not. -/
theorem ends_twiceDisk_not_loopDisk :
    '/' ∉ ".scss".toList ∧ Path.isAbsolute ("/s" ++ "/") = true ∧
      (chainFiles twiceDisk "/s" ".scss" "/s/main.scss").Finite ∧
      (∃ run, Ends twiceDisk "/s" ".scss" "/s/main.scss" run ∧
        flatten twiceDisk "/s" ".scss" "/s/main.scss" = run) ∧
      "/s/main.scss" ∈ triedFor loopDisk ".scss" "/s/main.scss" ∧
      ∀ depth, (flattenWithin loopDisk "/s" ".scss" depth "/s/main.scss").result =
        .error .importCycle := by
  have hslash : '/' ∉ ".scss".toList := by decide
  have htwice := @ends_unless_returning twiceDisk "/s" ".scss" "/s/main.scss" unlimited hslash
  have hloop := @ends_unless_returning loopDisk "/s" ".scss" "/s/main.scss" unlimited hslash
  have htried : "/s/main.scss" ∈ triedFor loopDisk ".scss" "/s/main.scss" := by decide +kernel
  have hfinite := htwice.1 (.inl rfl)
  obtain ⟨run, hends, -, -, hflatten⟩ := htwice.2.1 hfinite fun p q => entryPath_ne_twiceDisk
  exact ⟨hslash, rfl, hfinite, ⟨run, hends, hflatten rfl rfl⟩, htried,
    hloop.2.2 _ _ _ .refl (.single comesTo_loopDisk) htried htried⟩

end StyleBundle.Import
