import StyleBundle.Proofs.Dependency.Transfer
import StyleBundle.Proofs.Dependency.Traversal
import StyleBundle.Proofs.Disk.Way

/-!
# The list of a walk is closed

Whenever a walk ends with a list, every file on it has been read, and every import of the entry and
of a listed file leads to the entry or to a listed file. The list therefore holds exactly what the
entry reaches, whatever the rest of the disk holds.
-/

namespace StyleBundle.Dependency

variable {d : Disk} {s : Search} {entry text : String}

/-- What a steady search follows a reference to is what its target leads to. -/
theorem eq_some_iff_leads_of_follow (hs : s.IsSteady d) {asked : Nat} {r : Reference}
    {next : Option String} (h : follow d s asked r = .ok next) (path : String) :
    next = some path ↔ Leads d s r.origin r.target path := by
  obtain ⟨next', hfollow, hleads⟩ := follow_eq_ok hs r
  have hnext : next' = next := Except.ok.inj ((hfollow asked).symm.trans h)
  rw [← hnext]
  exact hleads path

/-- A file is read, unless it is no UTF-8. -/
theorem ok_or_undecodable_of_isFile [Limits] {path : String} (hfile : d.isFile path = true) :
    (∃ content, d.readText path = .ok content) ∨
      ∃ fault, d.readText path = .error (.undecodable fault) := by
  obtain ⟨location, bytes, changed, hlocate, hnode⟩ := Disk.isFile_iff.1 hfile
  rw [Disk.readText_of_locate hlocate hnode]
  simp only [Disk.textOf]
  cases Text.Utf8.decode bytes with
  | ok s => exact .inl ⟨_, rfl⟩
  | error fault => exact .inr ⟨fault, rfl⟩

/-- The disk refuses to read no file. -/
theorem readText_ne_refused {path : String} (hfile : d.isFile path = true) {cause : Disk.Cause}
    {refused : String} : d.readText path ≠ .error (.disk (.refused cause refused)) := by
  rcases ok_or_undecodable_of_isFile hfile with ⟨_, h⟩ | ⟨_, h⟩ <;> simp [h]

/-- A walk that ends has followed the pending references into its list, and has read every file that
it has added and followed the references of its text. -/
theorem closed_of_walk (hd : d.WellFormed) (hs : s.IsSteady d) {asked : Nat}
    {pending : List Reference} {found out : List String}
    (h : walk d s entry asked pending found = .ok out) :
    (∀ r ∈ pending, ∀ path, Leads d s r.origin r.target path → path ∈ entry :: out) ∧
    ∀ origin ∈ out, origin ∉ found → ∃ content, d.readText origin = .ok content ∧
      ∀ r ∈ references origin content, ∀ path, Leads d s r.origin r.target path →
        path ∈ entry :: out := by
  fun_induction walk d s entry asked pending found with
  | case1 =>
    obtain rfl := Except.ok.inj h
    refine ⟨fun r hr => absurd hr List.not_mem_nil, ?_⟩
    intro origin hmem hnot
    exact absurd hmem hnot
  | case2 => cases h
  | case3 asked found r rest hfollow ih =>
    obtain ⟨hpending, hadded⟩ := ih h
    refine ⟨List.forall_mem_cons.2 ⟨?_, hpending⟩, hadded⟩
    intro path hleads
    have hnone := (eq_some_iff_leads_of_follow hs hfollow path).2 hleads
    cases hnone
  | case4 asked found r rest target hfollow hnew _ content hcontent ih =>
    obtain ⟨hpending, hadded⟩ := ih h
    -- The references of the text that is read here are pending behind the step.
    obtain ⟨hinside, hrest⟩ := List.forall_mem_append.1 hpending
    have htarget : target ∈ out := subset_of_walk h (by simp)
    refine ⟨List.forall_mem_cons.2 ⟨?_, hrest⟩, ?_⟩
    · intro path hleads
      obtain rfl := Option.some.inj ((eq_some_iff_leads_of_follow hs hfollow path).2 hleads)
      exact List.mem_cons_of_mem _ htarget
    · intro origin hmem hnot
      by_cases heq : origin = target
      · subst heq
        exact ⟨content, hcontent, hinside⟩
      · exact hadded origin hmem (by simp [hnot, heq])
  | case5 asked found r rest target hfollow hnew _ cause refused hrefused ih =>
    have hleads := (eq_some_iff_leads_of_follow hs hfollow target).1 rfl
    exact absurd hrefused (readText_ne_refused (exists_file_of_leads hd hleads).1)
  | case6 => cases h
  | case7 asked found r rest target hfollow hold ih =>
    obtain ⟨hpending, hadded⟩ := ih h
    refine ⟨List.forall_mem_cons.2 ⟨?_, hpending⟩, hadded⟩
    intro path hleads
    obtain rfl := Option.some.inj ((eq_some_iff_leads_of_follow hs hfollow path).2 hleads)
    have hpath := (exists_file_of_leads hd hleads).2.2
    by_contra hnot
    rw [List.mem_cons, not_or] at hnot
    exact hold ⟨hpath, fun hmem => hnot.2 (subset_of_walk h hmem), hnot.1⟩

/-- The list of dependencies holds what the imports of the entry and of its own files lead to, and
all its files have been read. -/
theorem closed_of_dependencies (hd : d.WellFormed) (hs : s.IsSteady d) {found : List String}
    (h : dependencies d s entry text = .ok found) :
    (∀ r ∈ references entry text, ∀ path, Leads d s r.origin r.target path →
      path ∈ entry :: found) ∧
    ∀ origin ∈ found, ∃ content, d.readText origin = .ok content ∧
      ∀ r ∈ references origin content, ∀ path, Leads d s r.origin r.target path →
        path ∈ entry :: found := by
  rw [dependencies_eq_walk] at h
  obtain ⟨hentry, hclosed⟩ := closed_of_walk hd hs h
  exact ⟨hentry, fun origin hmem => hclosed origin hmem List.not_mem_nil⟩

/-- What the entry reaches is the entry or on the list, and what is on the list has been read. -/
theorem mem_cons_of_reaches (hd : d.WellFormed) (hs : s.IsSteady d) {found : List String}
    (h : dependencies d s entry text = .ok found) {path : String}
    (hreach : Reaches d s entry text path) : path ∈ entry :: found := by
  obtain ⟨hentry, hclosed⟩ := closed_of_dependencies hd hs h
  induction hreach with
  | refl => exact List.mem_cons_self ..
  | @tail origin target _ himports ih =>
    obtain ⟨content, hcontent, statement, hstatement, hleads⟩ := himports
    by_cases horigin : origin = entry
    · subst horigin
      obtain rfl : text = content := by simpa [contentOf] using hcontent
      exact hentry ⟨origin, statement.target⟩ (List.mem_map.2 ⟨statement, hstatement, rfl⟩) target
        hleads
    · have hmem : origin ∈ found := by simpa [horigin] using ih
      obtain ⟨content', hread, hfollowed⟩ := hclosed origin hmem
      obtain rfl : content' = content := by simpa [contentOf, horigin, hread] using hcontent
      exact hfollowed ⟨origin, statement.target⟩ (List.mem_map.2 ⟨statement, hstatement, rfl⟩)
        target hleads

/-- The dependencies of a text, where there is a list of them, are what the entry reaches. -/
theorem mem_dependencies_iff (hd : d.WellFormed) (hs : s.IsSteady d) {found : List String}
    (h : dependencies d s entry text = .ok found) (path : String) :
    path ∈ found ↔ path ≠ entry ∧ Reaches d s entry text path := by
  have htext : ∀ path, Reaches d s entry text path → path ≠ entry →
      ∃ content, d.readText path = .ok content := by
    intro path hreach hne
    have hmem := mem_cons_of_reaches hd hs h hreach
    obtain ⟨content, hcontent, -⟩ :=
      (closed_of_dependencies hd hs h).2 path (by simpa [hne] using hmem)
    exact ⟨content, hcontent⟩
  obtain ⟨out, hout, hdiscovery⟩ := exists_dependencies_discovery hd hs htext
  obtain rfl : found = out := Except.ok.inj (h.symm.trans hout)
  exact hdiscovery.mem_iff_reaches path

/-! ## Walks that fail -/

/-- A steady search follows every reference. -/
theorem exists_follow_eq_ok [Limits] (hs : s.IsSteady d) (asked : Nat) (r : Reference) :
    ∃ next, follow d s asked r = .ok next := by
  obtain ⟨sought, hsought⟩ : ∃ sought, lookupTarget d s asked r = .ok sought := by
    unfold lookupTarget
    split
    · exact ⟨none, rfl⟩
    · cases hhook : s.hook with
      | none => exact ⟨some r.target, rfl⟩
      | some hook =>
        obtain ⟨answer, hanswer⟩ := hs hook hhook r.target r.origin
        exact ⟨redirect r.target answer, by simp only [hanswer]⟩
  exact ⟨_, follow_eq_ok_iff.2 ⟨sought, hsought, rfl⟩⟩

/-- A steady walk fails only at a file that is no UTF-8. -/
theorem exists_undecodable_of_walk [Limits] (hd : d.WellFormed) (hs : s.IsSteady d) {asked : Nat}
    {pending : List Reference} {found : List String} {failure : Failure}
    (h : walk d s entry asked pending found = .error failure) :
    ∃ fault, failure = .undecodable fault := by
  fun_induction walk d s entry asked pending found with
  | case1 => cases h
  | case2 asked found r rest other hfollow =>
    obtain ⟨next, hnext⟩ := exists_follow_eq_ok hs asked r
    cases hnext.symm.trans hfollow
  | case3 asked found r rest hfollow ih => exact ih h
  | case4 asked found r rest target hfollow hnew _ content hcontent ih => exact ih h
  | case5 asked found r rest target hfollow hnew _ cause refused hrefused ih => exact ih h
  | case6 asked found r rest target hfollow hnew _ other hother htext =>
    obtain rfl := Except.error.inj h
    -- A path that a lookup finds is made of names, so it holds no NUL.
    obtain ⟨sought, hresolve⟩ := exists_resolve_of_follow hfollow
    obtain ⟨location, bytes, changed, hnode, hpath⟩ := exists_file_of_resolve hd hresolve
    obtain ⟨cause, rfl⟩ | ⟨-, hnul⟩ | ⟨_, fault, rfl, -⟩ := Disk.refused_or_nul_or_undecodable htext
    · exact absurd rfl (hother cause target)
    · exact absurd hnul (hd.nul_not_mem_of_mem_spellings hnode hpath)
    · exact ⟨fault, rfl⟩
  | case7 asked found r rest target hfollow hold ih => exact ih h

/-- The dependencies of a text can be listed, unless one of them is no UTF-8 or the calls are
bounded and one lies too deep. -/
theorem undecodable_or_tooDeep_of_dependencies [Limits] (hd : d.WellFormed) (hs : s.IsSteady d)
    {failure : Failure} (h : dependencies d s entry text = .error failure) :
    (∃ fault, failure = .undecodable fault) ∨
      (∃ most, Limits.importDepth = some most) ∧ failure = .raised tooDeepMessage := by
  obtain hwalk | ⟨hbounded, hdeep⟩ := dependencies_eq_or d s entry text
  · exact .inl (exists_undecodable_of_walk hd hs (hwalk ▸ h))
  · exact .inr ⟨hbounded, Except.error.inj (h.symm.trans hdeep)⟩

/-- The dependencies cannot be listed exactly if some file that the entry reaches is no UTF-8. -/
theorem exists_dependencies_eq_error_iff (hd : d.WellFormed) (hs : s.IsSteady d) :
    (∃ failure, dependencies d s entry text = .error failure) ↔
      ∃ path fault, path ≠ entry ∧ Reaches d s entry text path ∧
        d.readText path = .error (.undecodable fault) := by
  constructor
  · rintro ⟨failure, h⟩
    by_contra hnone
    have htext : ∀ path, Reaches d s entry text path → path ≠ entry →
        ∃ content, d.readText path = .ok content := by
      intro path hreach hne
      rcases hreach.cases_tail with rfl | ⟨origin, -, content, -, statement, -, hleads⟩
      · exact absurd rfl hne
      · refine (ok_or_undecodable_of_isFile (exists_file_of_leads hd hleads).1).resolve_right ?_
        rintro ⟨fault, hfault⟩
        exact hnone ⟨path, fault, hne, hreach, hfault⟩
    obtain ⟨out, hout, -⟩ := exists_dependencies_discovery hd hs htext
    cases h.symm.trans hout
  · rintro ⟨path, fault, hne, hreach, hfault⟩
    cases hfound : dependencies d s entry text with
    | error failure => exact ⟨failure, rfl⟩
    | ok found =>
      have hmem := mem_cons_of_reaches hd hs hfound hreach
      obtain ⟨content, hcontent, -⟩ :=
        (closed_of_dependencies hd hs hfound).2 path (by simpa [hne] using hmem)
      cases hcontent.symm.trans hfault

end StyleBundle.Dependency
