import StyleBundle.Proofs.Dependency.Depth
import StyleBundle.Proofs.Dependency.Lookup

/-!
# The same walk on another disk

A walk asks the disk two things: which of the paths it probes are files, and what text the files
hold that it finds. Its hook may ask more. On another disk on which the hook answers alike, that has
no more of the probed files, and on which the found ones still stand with their text, every lookup
takes the same file, and the walk gives the same list.
-/

namespace StyleBundle.Dependency

variable {d d' : Disk} {s : Search} {entry origin target path : String}

/-- The paths that are probed for a target from the file that imports it. -/
def probesFor (s : Search) (origin target : String) : List String :=
  probes (Path.directory origin :: s.paths) (candidates s.partials s.extensions target)

/-- A disk that has no more of the files that a search may probe than another one. -/
def HasNoMore (s : Search) (d d' : Disk) : Prop :=
  ∀ origin target, ∀ probe ∈ probesFor s origin target,
    d'.isFile probe = true → d.isFile probe = true

/-- A search whose hook, if it has one, answers on a disk what it answers on another. -/
def Search.AnswersAlike (s : Search) (d d' : Disk) : Prop :=
  ∀ hook, s.hook = some hook → ∀ asked target origin,
    hook.answer asked d' target origin = hook.answer asked d target origin

/-- A search without a hook asks the disk nothing but where files are. -/
theorem Search.AnswersAlike.of_none (hhook : s.hook = none) : s.AnswersAlike d d' := by
  intro hook hsome
  rw [hhook] at hsome
  cases hsome

/-- A probe that has become the absolute path of a file is a file wherever that path is. -/
theorem isFile_probe_of_isFile_absolute (hd : d.WellFormed) (hd' : d'.WellFormed)
    (hhome : d'.home = d.home) (hfile : d.isFile (Path.normalise path) = true)
    (h : d'.isFile (d.absolute (Path.normalise path)) = true) :
    d'.isFile (Path.normalise path) = true := by
  obtain ⟨location, bytes, changed, hlocate, hnode⟩ := Disk.isFile_iff.1 hfile
  obtain ⟨location', bytes', changed', hlocate', hnode'⟩ := Disk.isFile_iff.1 h
  have habsolute := hd.locate_of_mem_spellings hnode (hd.absolute_mem_spellings hlocate)
  have hsame : location' = location := by
    rw [Disk.eq_lexical_of_locate hlocate', Disk.lexical_congr hhome,
      ← Disk.eq_lexical_of_locate habsolute]
  subst hsame
  refine hd'.isFile_normalise_iff.2 ⟨bytes', changed', ?_⟩
  rwa [Disk.lexical_congr hhome, ← Disk.eq_lexical_of_locate hlocate]

/-- A lookup takes the same file where that is still a file and no other probed file is new. -/
theorem resolve_congr (hd : d.WellFormed) (hd' : d'.WellFormed) (hhome : d'.home = d.home)
    (hless : HasNoMore s d d')
    (hkept : ∀ path, resolve d s origin target = some path → d'.isFile path = true) :
    resolve d' s origin target = resolve d s origin target := by
  have hmiss : ∀ probe ∈ probesFor s origin target, d.isFile probe ≠ true →
      d'.isFile probe ≠ true :=
    fun probe hprobe hnot hfile => hnot (hless origin target probe hprobe hfile)
  rw [resolve, lookup_eq_find?] at hkept ⊢
  rw [resolve, lookup_eq_find?]
  rw [← probesFor] at hkept ⊢
  cases hfind : (probesFor s origin target).find? d.isFile with
  | none =>
    have hnone : (probesFor s origin target).find? d'.isFile = none :=
      List.find?_eq_none.2 fun probe hprobe =>
        hmiss probe hprobe (List.find?_eq_none.1 hfind probe hprobe)
    rw [hnone, Option.map_none, Option.map_none]
  | some probe =>
    obtain ⟨hfile, before, after, hprobes, hbefore⟩ := List.find?_eq_some_iff_append.1 hfind
    obtain ⟨path, rfl⟩ := exists_normalise_of_mem_probes (List.mem_of_find?_eq_some hfind)
    have hfile' := isFile_probe_of_isFile_absolute hd hd' hhome hfile
      (hkept _ (by rw [hfind]; rfl))
    have hsome : (probesFor s origin target).find? d'.isFile = some (Path.normalise path) := by
      refine List.find?_eq_some_iff_append.2
        ⟨hfile', before, after, hprobes, fun other hother => ?_⟩
      have hnot := hmiss other (hprobes ▸ List.mem_append_left _ hother)
        (by simpa using hbefore other hother)
      simpa using hnot
    rw [hsome, Option.map_some, Option.map_some, Disk.absolute, Disk.absolute, Disk.homePath,
      Disk.homePath, hhome]

/-- A reference is followed to what the lookup finds for the target that the hook makes of it. -/
theorem follow_eq_ok_iff [Limits] {asked : Nat} {r : Reference} {next : Option String} :
    follow d s asked r = .ok next ↔ ∃ sought, lookupTarget d s asked r = .ok sought ∧
      sought.bind (resolve d s r.origin) = next := by
  unfold follow
  cases lookupTarget d s asked r with
  | error failure => simp
  | ok sought => simp

/-- A reference is followed to what the lookup finds for some target. -/
theorem exists_resolve_of_follow [Limits] {asked : Nat} {r : Reference}
    (h : follow d s asked r = .ok (some path)) :
    ∃ sought, resolve d s r.origin sought = some path := by
  obtain ⟨target, -, hpath⟩ := follow_eq_ok_iff.1 h
  obtain ⟨sought, -, hresolve⟩ := Option.bind_eq_some_iff.1 hpath
  exact ⟨sought, hresolve⟩

/-- What is looked up for a reference does not depend on the disk where the hook answers alike. -/
theorem lookupTarget_congr (halike : s.AnswersAlike d d') (asked : Nat) (r : Reference) :
    lookupTarget d' s asked r = lookupTarget d s asked r := by
  unfold lookupTarget
  cases hhook : s.hook with
  | none => rfl
  | some hook => simp only [halike hook hhook]

/-- A reference is followed to the same file where that is still a file and no other probed file is
new. -/
theorem follow_congr (hd : d.WellFormed) (hd' : d'.WellFormed) (hhome : d'.home = d.home)
    (halike : s.AnswersAlike d d') (hless : HasNoMore s d d') {asked : Nat} {r : Reference}
    {next : Option String} (h : follow d s asked r = .ok next)
    (hkept : ∀ path, next = some path → d'.isFile path = true) :
    follow d' s asked r = .ok next := by
  obtain ⟨target, htarget, rfl⟩ := follow_eq_ok_iff.1 h
  rw [← lookupTarget_congr halike] at htarget
  refine follow_eq_ok_iff.2 ⟨target, htarget, ?_⟩
  cases target with
  | none => simp only [Option.bind_none]
  | some sought =>
    simp only [Option.bind_some] at hkept ⊢
    exact resolve_congr hd hd' hhome hless hkept

/-- A reference is followed to a file that is still one. -/
theorem follow_congr_of_isFile (hd : d.WellFormed) (hd' : d'.WellFormed) (hhome : d'.home = d.home)
    (halike : s.AnswersAlike d d') (hless : HasNoMore s d d') {asked : Nat} {r : Reference}
    (h : follow d s asked r = .ok (some path)) (hfile : d'.isFile path = true) :
    follow d' s asked r = .ok (some path) ∧ path ∈ filePaths d' := by
  have hfollow := follow_congr hd hd' hhome halike hless h
    fun other hother => Option.some.inj hother ▸ hfile
  obtain ⟨sought, hresolve⟩ := exists_resolve_of_follow hfollow
  exact ⟨hfollow, mem_filePaths_of_resolve hd' hresolve⟩

/-- A walk reads a file that is new and takes up its references. -/
theorem walk_of_fresh {asked : Nat} {r : Reference} {found : List String}
    (hfollow : follow d s asked r = .ok (some path))
    (hfresh : path ∈ filePaths d ∧ path ∉ found ∧ path ≠ entry) (rest : List Reference) :
    walk d s entry asked (r :: rest) found =
      match d.readText path with
      | .ok text => walk d s entry (asked + 1) (references path text ++ rest) (found ++ [path])
      | .error (.disk (.refused ..)) => walk d s entry (asked + 1) rest (found ++ [path])
      | .error failure => .error failure := by
  rw [walk, hfollow]
  exact dif_pos hfresh

/-- A walk passes a file that is not new. -/
theorem walk_of_stale {asked : Nat} {r : Reference} {found : List String}
    (hfollow : follow d s asked r = .ok (some path))
    (hstale : ¬ (path ∈ filePaths d ∧ path ∉ found ∧ path ≠ entry)) (rest : List Reference) :
    walk d s entry asked (r :: rest) found = walk d s entry (asked + 1) rest found := by
  rw [walk, hfollow]
  exact dif_neg hstale

/-- A walk keeps what it has found. -/
theorem subset_of_walk {asked : Nat} {pending : List Reference} {found out : List String}
    (h : walk d s entry asked pending found = .ok out) : found ⊆ out := by
  fun_induction walk d s entry asked pending found with
  | case1 => exact (Except.ok.inj h) ▸ List.Subset.refl _
  | case2 => cases h
  | case3 _ _ _ _ _ ih => exact ih h
  | case4 _ _ _ _ _ _ _ _ _ _ ih => exact List.Subset.trans (List.subset_append_left ..) (ih h)
  | case5 _ _ _ _ _ _ _ _ _ _ _ ih => exact List.Subset.trans (List.subset_append_left ..) (ih h)
  | case6 => cases h
  | case7 _ _ _ _ _ _ _ ih => exact ih h

/-- Whatever a walk finds is what some target leads to. -/
theorem exists_resolve_of_walk {asked : Nat} {pending : List Reference}
    {found out : List String} (h : walk d s entry asked pending found = .ok out)
    (hfound : ∀ path ∈ found, ∃ origin target, resolve d s origin target = some path) :
    ∀ path ∈ out, ∃ origin target, resolve d s origin target = some path := by
  have hmore {found : List String} {asked : Nat} {r : Reference} {path : String}
      (hfollow : follow d s asked r = .ok (some path))
      (hfound : ∀ path ∈ found, ∃ origin target, resolve d s origin target = some path) :
      ∀ other ∈ found ++ [path], ∃ origin target, resolve d s origin target = some other := by
    intro other hother
    rcases List.mem_append.1 hother with hother | hother
    · exact hfound other hother
    · rw [List.mem_singleton.1 hother]
      exact ⟨_, exists_resolve_of_follow hfollow⟩
  fun_induction walk d s entry asked pending found with
  | case1 => exact (Except.ok.inj h) ▸ hfound
  | case2 => cases h
  | case3 _ _ _ _ _ ih => exact ih h hfound
  | case4 _ _ _ _ _ hfollow _ _ _ _ ih => exact ih h (hmore hfollow hfound)
  | case5 _ _ _ _ _ hfollow _ _ _ _ _ ih => exact ih h (hmore hfollow hfound)
  | case6 => cases h
  | case7 _ _ _ _ _ _ _ ih => exact ih h hfound

/-- A walk gives the same list on another disk where the hook answers alike, that has no more of the
probed files, and where the found files still stand with their text, and so does the entry if it is
a file. -/
theorem walk_congr (hd : d.WellFormed) (hd' : d'.WellFormed) (hhome : d'.home = d.home)
    (halike : s.AnswersAlike d d') (hless : HasNoMore s d d')
    (hentry : d.isFile entry = true → d'.isFile entry = true)
    {asked : Nat} {pending : List Reference} {found out : List String}
    (h : walk d s entry asked pending found = .ok out)
    (hkept : ∀ path ∈ out, d'.isFile path = true ∧ d'.readText path = d.readText path) :
    walk d' s entry asked pending found = .ok out := by
  fun_induction walk d s entry asked pending found with
  | case1 => rwa [walk]
  | case2 => cases h
  | case3 asked found r rest hfollow ih =>
    rw [walk, follow_congr hd hd' hhome halike hless hfollow (by simp)]
    exact ih h
  | case4 asked found r rest path hfollow hnew _ text htext ih =>
    obtain ⟨hfile, hsame⟩ := hkept path (subset_of_walk h (by simp))
    obtain ⟨hfollow', hmem⟩ := follow_congr_of_isFile hd hd' hhome halike hless hfollow hfile
    rw [walk_of_fresh hfollow' ⟨hmem, hnew.2⟩, hsame, htext]
    exact ih h
  | case5 asked found r rest path hfollow hnew _ cause _ htext ih =>
    obtain ⟨hfile, hsame⟩ := hkept path (subset_of_walk h (by simp))
    obtain ⟨hfollow', hmem⟩ := follow_congr_of_isFile hd hd' hhome halike hless hfollow hfile
    rw [walk_of_fresh hfollow' ⟨hmem, hnew.2⟩, hsame, htext]
    exact ih h
  | case6 => cases h
  | case7 asked found r rest path hfollow hold ih =>
    obtain ⟨sought, hresolve⟩ := exists_resolve_of_follow hfollow
    have hmem := mem_filePaths_of_resolve hd hresolve
    have hknown : path ∈ found ∨ path = entry := by
      by_contra hnot
      push Not at hnot
      exact hold ⟨hmem, hnot⟩
    have hfile : d'.isFile path = true := by
      rcases hknown with hfound | rfl
      · exact (hkept path (subset_of_walk h hfound)).1
      · exact hentry (isFile_of_resolve hd hresolve)
    obtain ⟨hfollow', -⟩ := follow_congr_of_isFile hd hd' hhome halike hless hfollow hfile
    rw [walk_of_stale hfollow' fun hfresh => hknown.elim hfresh.2.1 hfresh.2.2]
    exact ih h

/-- The dependencies of a text are the same on another disk where the hook answers alike, that has
no more of the probed files, where the entry is still a file if it was one, and the dependencies
still stand with their text. -/
theorem dependencies_congr (hd : d.WellFormed) (hd' : d'.WellFormed) (hhome : d'.home = d.home)
    (halike : s.AnswersAlike d d') (hless : HasNoMore s d d')
    (hentry : d.isFile entry = true → d'.isFile entry = true) {text : String} {out : List String}
    (h : dependencies d s entry text = .ok out)
    (hkept : ∀ path ∈ out, d'.isFile path = true ∧ d'.readText path = d.readText path) :
    dependencies d' s entry text = .ok out := by
  rw [dependencies_eq_walk] at h ⊢
  exact walk_congr hd hd' hhome halike hless hentry h hkept

/-! ## Disks with the same files to be found -/

/-- A reference is followed alike on another disk where the hook answers alike, that has no more of
the probed files, and where every file that can be found still is one. -/
theorem follow_eq (hd : d.WellFormed) (hd' : d'.WellFormed) (hhome : d'.home = d.home)
    (halike : s.AnswersAlike d d') (hless : HasNoMore s d d')
    (hkept : ∀ origin target path, resolve d s origin target = some path →
      d'.isFile path = true ∧ d'.readText path = d.readText path) (asked : Nat) (r : Reference) :
    follow d' s asked r = follow d s asked r := by
  have hresolve : resolve d' s r.origin = resolve d s r.origin := funext fun sought =>
    resolve_congr hd hd' hhome hless fun path hpath => (hkept _ _ _ hpath).1
  rw [follow, follow, lookupTarget_congr halike, hresolve]

/-- Two walks are the same if they follow alike whatever comes to be pending, and find the same text
where it leads. -/
theorem walk_eq_of_follow_eq {s' : Search} {Pends : Reference → Prop}
    (hfollow : ∀ r, Pends r → ∀ asked, follow d' s' asked r = follow d s asked r)
    (hfound : ∀ r, Pends r → ∀ asked path, follow d s asked r = .ok (some path) →
      (path ∈ filePaths d' ↔ path ∈ filePaths d) ∧ d'.readText path = d.readText path)
    (hnext : ∀ r, Pends r → ∀ asked path content, follow d s asked r = .ok (some path) →
      path ≠ entry → d.readText path = .ok content → ∀ other ∈ references path content, Pends other)
    (asked : Nat) (pending : List Reference) (found : List String)
    (hpending : ∀ r ∈ pending, Pends r) :
    walk d' s' entry asked pending found = walk d s entry asked pending found := by
  fun_induction walk d s entry asked pending found with
  | case1 => rw [walk]
  | case2 asked found r rest failure hfails =>
    rw [walk, hfollow r (hpending r (List.mem_cons_self ..)), hfails]
  | case3 asked found r rest hnowhere ih =>
    rw [walk, hfollow r (hpending r (List.mem_cons_self ..)), hnowhere]
    exact ih fun other hother => hpending other (List.mem_cons_of_mem _ hother)
  | case4 asked found r rest path hpath hnew _ content hcontent ih =>
    have hr := hpending r (List.mem_cons_self ..)
    obtain ⟨hfile, htext⟩ := hfound r hr asked path hpath
    rw [walk_of_fresh ((hfollow r hr asked).trans hpath) ⟨hfile.2 hnew.1, hnew.2⟩, htext, hcontent]
    refine ih fun other hother => ?_
    rcases List.mem_append.1 hother with hother | hother
    · exact hnext r hr asked path content hpath hnew.2.2 hcontent other hother
    · exact hpending other (List.mem_cons_of_mem _ hother)
  | case5 asked found r rest path hpath hnew _ cause refused hrefused ih =>
    have hr := hpending r (List.mem_cons_self ..)
    obtain ⟨hfile, htext⟩ := hfound r hr asked path hpath
    rw [walk_of_fresh ((hfollow r hr asked).trans hpath) ⟨hfile.2 hnew.1, hnew.2⟩, htext, hrefused]
    exact ih fun other hother => hpending other (List.mem_cons_of_mem _ hother)
  | case6 asked found r rest path hpath hnew _ failure hother hfails =>
    have hr := hpending r (List.mem_cons_self ..)
    obtain ⟨hfile, htext⟩ := hfound r hr asked path hpath
    rw [walk_of_fresh ((hfollow r hr asked).trans hpath) ⟨hfile.2 hnew.1, hnew.2⟩, htext, hfails]
    split
    next heq => cases heq
    next cause refused heq => exact (hother cause refused (Except.error.inj heq)).elim
    next heq => rw [Except.error.inj heq]
  | case7 asked found r rest path hpath hold ih =>
    have hr := hpending r (List.mem_cons_self ..)
    rw [walk_of_stale ((hfollow r hr asked).trans hpath)
      fun hnew => hold ⟨(hfound r hr asked path hpath).1.1 hnew.1, hnew.2⟩]
    exact ih fun other hother => hpending other (List.mem_cons_of_mem _ hother)

/-- A walk gives the same list, or fails alike, on another disk where the hook answers alike, that
has no more of the probed files, and where every file that can be found still stands with its text.
-/
theorem walk_eq (hd : d.WellFormed) (hd' : d'.WellFormed) (hhome : d'.home = d.home)
    (halike : s.AnswersAlike d d') (hless : HasNoMore s d d')
    (hkept : ∀ origin target path, resolve d s origin target = some path →
      d'.isFile path = true ∧ d'.readText path = d.readText path)
    (asked : Nat) (pending : List Reference) (found : List String) :
    walk d' s entry asked pending found = walk d s entry asked pending found := by
  have hfollow (r : Reference) (_ : True) (asked : Nat) :
      follow d' s asked r = follow d s asked r :=
    follow_eq hd hd' hhome halike hless hkept asked r
  refine walk_eq_of_follow_eq hfollow ?_ (fun _ _ _ _ _ _ _ _ _ _ => trivial) asked pending found
    fun _ _ => trivial
  intro r _ asked path hpath
  obtain ⟨sought, hresolve⟩ := exists_resolve_of_follow hpath
  obtain ⟨hstays, htext⟩ := hkept _ _ _ hresolve
  have hmem := mem_filePaths_of_resolve hd hresolve
  have hmem' := (follow_congr_of_isFile hd hd' hhome halike hless hpath hstays).2
  exact ⟨iff_of_true hmem' hmem, htext⟩

/-- The dependencies of a text are the same, or cannot be found alike, on another disk where the
hook answers alike, that has no more of the probed files, and where every file that can be found
still stands with its text. -/
theorem dependencies_eq (hd : d.WellFormed) (hd' : d'.WellFormed) (hhome : d'.home = d.home)
    (halike : s.AnswersAlike d d') (hless : HasNoMore s d d')
    (hkept : ∀ origin target path, resolve d s origin target = some path →
      d'.isFile path = true ∧ d'.readText path = d.readText path) (text : String) :
    dependencies d' s entry text = dependencies d s entry text := by
  rw [dependencies_eq_walk, dependencies_eq_walk]
  exact walk_eq hd hd' hhome halike hless hkept 0 _ []

end StyleBundle.Dependency
