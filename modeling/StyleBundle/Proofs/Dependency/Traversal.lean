import Mathlib.Data.List.Nodup
import Mathlib.Logic.Relation
import Mathlib.Tactic.Tauto
import StyleBundle.Proofs.Dependency.Transfer
import StyleBundle.Proofs.Import.Weave
import StyleBundle.Proofs.Text.Utf8

/-!
# The walk as a depth-first search

Imports make a graph on paths, in which the entry's edges come from a given text and those of any
other file from the text on the disk. The walk keeps a list of pending references; here it is
compared with the search by recursion, which finishes a new file before it goes on. The search finds
exactly what the entry reaches, each path once, whatever cycles the imports make.
-/

namespace StyleBundle.Dependency

/-- A search whose hook never fails and answers the same question always in the same way. -/
def Search.IsSteady (d : Disk) (s : Search) : Prop :=
  ∀ hook, s.hook = some hook → ∀ target origin, ∃ answer, ∀ asked,
    hook.answer asked d target origin = .ok answer

/-- A search without a hook is steady. -/
theorem Search.IsSteady.of_none {d : Disk} {s : Search} (hhook : s.hook = none) : s.IsSteady d := by
  intro hook hsome
  rw [hhook] at hsome
  cases hsome

/-- What is looked up for a target: the target itself, or what the hook makes of it. -/
def Redirects (d : Disk) (s : Search) (origin target sought : String) : Prop :=
  match s.hook with
  | none => sought = target
  | some hook => ∃ answer, hook.answer 0 d target origin = .ok answer ∧
      redirect target answer = some sought

/-- A target leads to a path if it is no address, the hook does not pass it on as one, and the
lookup from the importing file finds the path. -/
def Leads (d : Disk) (s : Search) (origin target path : String) : Prop :=
  isExternal target = false ∧ ∃ sought, Redirects d s origin target sought ∧
    resolve d s origin sought = some path

/-- The text with which a path takes part in a walk. -/
def contentOf (d : Disk) (entry text path : String) : Except Failure String :=
  if path = entry then .ok text else d.readText path

/-- A path imports another if a statement of its text leads there. -/
def Imports (d : Disk) (s : Search) (entry text origin path : String) : Prop :=
  ∃ content, contentOf d entry text origin = .ok content ∧
    ∃ statement ∈ Import.statements content, Leads d s origin statement.target path

/-- A path is reached from the entry through any number of imports. -/
def Reaches (d : Disk) (s : Search) (entry text path : String) : Prop :=
  Relation.ReflTransGen (Imports d s entry text) entry path

/-- What a depth-first search discovers behind some references when the paths `seen` are known: a
new path comes before everything behind it, and that before the remaining references. -/
inductive Discovery (d : Disk) (s : Search) : (seen : List String) → List Reference →
    (found : List String) → Prop
  /-- No reference is left. -/
  | done {seen : List String} : Discovery d s seen [] []
  /-- A reference that leads nowhere, or to a known path. -/
  | skip {seen rest found} {r : Reference}
      (hold : ∀ path, Leads d s r.origin r.target path → path ∈ seen)
      (hrest : Discovery d s seen rest found) : Discovery d s seen (r :: rest) found
  /-- A reference that leads to a new path. -/
  | visit {seen rest below found} {r : Reference} {path content : String}
      (hleads : Leads d s r.origin r.target path) (hnew : path ∉ seen)
      (hcontent : d.readText path = .ok content)
      (hbelow : Discovery d s (seen ++ [path]) (references path content) below)
      (hrest : Discovery d s (seen ++ path :: below) rest found) :
      Discovery d s seen (r :: rest) (path :: below ++ found)

variable {d : Disk} {s : Search} {entry text : String}

/-! ## One reference -/

/-- A steady search follows a reference to the path to which its target leads. -/
theorem follow_eq_ok (hs : s.IsSteady d) (r : Reference) : ∃ next, (∀ asked,
    follow d s asked r = .ok next) ∧
      ∀ path, next = some path ↔ Leads d s r.origin r.target path := by
  cases hexternal : isExternal r.target with
  | true =>
    refine ⟨none, fun asked => ?_, fun path => ?_⟩
    · simp [follow, lookupTarget, hexternal]
    · simp [Leads, hexternal]
  | false =>
    cases hhook : s.hook with
    | none =>
      refine ⟨resolve d s r.origin r.target, fun asked => ?_, fun path => ?_⟩
      · simp [follow, lookupTarget, hexternal, hhook]
      · simp [Leads, Redirects, hexternal, hhook]
    | some hook =>
      obtain ⟨answer, hanswer⟩ := hs hook hhook r.target r.origin
      refine ⟨(redirect r.target answer).bind (resolve d s r.origin), fun asked => ?_,
        fun path => ?_⟩
      · simp [follow, lookupTarget, hexternal, hhook, hanswer]
      · simp [Leads, Redirects, hexternal, hhook, hanswer, Option.bind_eq_some_iff]

/-- A target leads to one path at most. -/
theorem Leads.unique {origin target path other : String} (h : Leads d s origin target path)
    (hother : Leads d s origin target other) : path = other := by
  obtain ⟨-, sought, hsought, hpath⟩ := h
  obtain ⟨-, sought', hsought', hpath'⟩ := hother
  have heq : sought = sought' := by
    unfold Redirects at hsought hsought'
    cases hhook : s.hook with
    | none =>
      rw [hhook] at hsought hsought'
      exact hsought.trans hsought'.symm
    | some hook =>
      rw [hhook] at hsought hsought'
      obtain ⟨answer, hanswer, hredirect⟩ := hsought
      obtain ⟨answer', hanswer', hredirect'⟩ := hsought'
      obtain rfl : answer = answer' := by simpa [hanswer] using hanswer'
      exact Option.some.inj (hredirect.symm.trans hredirect')
  subst heq
  exact Option.some.inj (hpath.symm.trans hpath')

/-- A path to which a target leads is an absolute spelling of a file. -/
theorem exists_file_of_leads (hd : d.WellFormed) {origin target path : String}
    (h : Leads d s origin target path) :
    d.isFile path = true ∧ d.absolute path = path ∧ path ∈ filePaths d := by
  obtain ⟨_, sought, _, hresolve⟩ := h
  exact ⟨isFile_of_resolve hd hresolve, absolute_of_resolve hd hresolve,
    mem_filePaths_of_resolve hd hresolve⟩

/-- The walk passes a reference that is followed nowhere, or to a known path. -/
theorem walk_of_known {r : Reference} {found : List String} {asked : ℕ} {next : Option String}
    (hfollow : follow d s asked r = .ok next)
    (hold : ∀ path, next = some path → path ∈ entry :: found) (rest : List Reference) :
    walk d s entry asked (r :: rest) found = walk d s entry (asked + 1) rest found := by
  cases next with
  | none => rw [walk, hfollow]
  | some path =>
    have hseen := List.mem_cons.1 (hold path rfl)
    exact walk_of_stale hfollow (fun hfresh => hseen.elim hfresh.2.2 hfresh.2.1) rest

/-- What the walk makes of a new path depends on whether it can be read. -/
theorem walk_of_new (hd : d.WellFormed) {r : Reference} {found : List String} {asked : ℕ}
    {path : String} (hfollow : follow d s asked r = .ok (some path)) (hnew : path ∉ entry :: found)
    (rest : List Reference) :
    walk d s entry asked (r :: rest) found =
      match d.readText path with
      | .ok text => walk d s entry (asked + 1) (references path text ++ rest) (found ++ [path])
      | .error (.disk (.refused ..)) => walk d s entry (asked + 1) rest (found ++ [path])
      | .error failure => .error failure := by
  obtain ⟨sought, hresolve⟩ := exists_resolve_of_follow hfollow
  simp only [List.mem_cons, not_or] at hnew
  exact walk_of_fresh hfollow ⟨mem_filePaths_of_resolve hd hresolve, hnew.2, hnew.1⟩ rest

/-- The walk passes a reference that leads nowhere, or to a known path. -/
theorem walk_skip (hs : s.IsSteady d) {r : Reference} {found : List String}
    (hold : ∀ path, Leads d s r.origin r.target path → path ∈ entry :: found) (asked : Nat)
    (rest : List Reference) :
    walk d s entry asked (r :: rest) found = walk d s entry (asked + 1) rest found := by
  obtain ⟨next, hfollow, hnext⟩ := follow_eq_ok hs r
  exact walk_of_known (hfollow asked) (fun path h => hold path ((hnext path).1 h)) rest

/-- The walk takes up the references of a new path before the rest. -/
theorem walk_visit (hd : d.WellFormed) (hs : s.IsSteady d) {r : Reference} {found : List String}
    {path content : String} (hleads : Leads d s r.origin r.target path)
    (hnew : path ∉ entry :: found) (hcontent : d.readText path = .ok content) (asked : Nat)
    (rest : List Reference) :
    walk d s entry asked (r :: rest) found =
      walk d s entry (asked + 1) (references path content ++ rest) (found ++ [path]) := by
  obtain ⟨next, hfollow, hnext⟩ := follow_eq_ok hs r
  obtain rfl := (hnext path).2 hleads
  rw [walk_of_new hd (hfollow asked) hnew, hcontent]

/-! ## The walk follows the search -/

/-- Where the search discovers paths behind some references, the walk appends them and goes on with
the references pending behind. -/
theorem walk_append (hd : d.WellFormed) (hs : s.IsSteady d) {seen out : List String}
    {refs : List Reference} (h : Discovery d s seen refs out) (found : List String)
    (hseen : seen = entry :: found) (asked : Nat) (rest : List Reference) : ∃ asked',
    walk d s entry asked (refs ++ rest) found = walk d s entry asked' rest (found ++ out) := by
  induction h generalizing found asked rest with
  | done => exact ⟨asked, by simp⟩
  | skip hold _ ih =>
    subst hseen
    obtain ⟨asked', hwalk⟩ := ih found rfl (asked + 1) rest
    exact ⟨asked', by rw [List.cons_append, walk_skip hs hold, hwalk]⟩
  | @visit seen refs below after r path content hleads hnew hcontent _ _ ihbelow ihrest =>
    subst hseen
    obtain ⟨asked₁, hbelow⟩ := ihbelow (found ++ [path]) (by simp) (asked + 1) (refs ++ rest)
    obtain ⟨asked₂, hrest⟩ := ihrest (found ++ path :: below) (by simp) asked₁ rest
    refine ⟨asked₂, ?_⟩
    rw [List.cons_append, walk_visit hd hs hleads hnew hcontent, hbelow, List.append_assoc,
      List.singleton_append, hrest]
    simp

/-- More found paths leave no more unfound ones. -/
theorem length_unfound_append_le (d : Disk) (found more : List String) :
    (unfound d (found ++ more)).length ≤ (unfound d found).length := by
  have h : unfound d (found ++ more) = (unfound d found).filter (· ∉ more) := by
    simp only [unfound, List.filter_filter]
    congr 1
    funext path
    by_cases hpath : path ∈ found <;> simp [hpath]
  rw [h]
  exact List.length_filter_le ..

/-- The references of a reached text lead to reached paths. -/
theorem reaches_of_mem_references {origin content path : String}
    (horigin : Reaches d s entry text origin)
    (hcontent : contentOf d entry text origin = .ok content) {r : Reference}
    (hr : r ∈ references origin content) (hleads : Leads d s r.origin r.target path) :
    Reaches d s entry text path := by
  obtain ⟨statement, hstatement, rfl⟩ := List.mem_map.1 hr
  exact horigin.tail ⟨content, hcontent, statement, hstatement, hleads⟩

/-- The search comes to an end behind references that lead to reached paths, where all of those can
be read. Every new path leaves fewer unfound ones. -/
theorem exists_discovery (hd : d.WellFormed)
    (htext : ∀ path, Reaches d s entry text path → path ≠ entry →
      ∃ content, d.readText path = .ok content)
    (n : ℕ) (found : List String) (hn : (unfound d found).length ≤ n) (refs : List Reference)
    (hrefs : ∀ r ∈ refs, ∀ path, Leads d s r.origin r.target path → Reaches d s entry text path) :
    ∃ out, Discovery d s (entry :: found) refs out := by
  induction n using Nat.strongRecOn generalizing found refs with
  | ind n ih =>
    induction refs with
    | nil => exact ⟨[], .done⟩
    | cons r rest ihrest =>
      have hrest := fun r hr => hrefs r (List.mem_cons_of_mem _ hr)
      by_cases hold : ∀ path, Leads d s r.origin r.target path → path ∈ entry :: found
      · obtain ⟨out, hout⟩ := ihrest hrest
        exact ⟨out, .skip hold hout⟩
      · push Not at hold
        obtain ⟨path, hleads, hnew⟩ := hold
        have hreach := hrefs r (List.mem_cons_self ..) path hleads
        have hne : path ≠ entry := fun e => hnew (e ▸ List.mem_cons_self ..)
        obtain ⟨content, hcontent⟩ := htext path hreach hne
        have hless : (unfound d (found ++ [path])).length < n := by
          have hfewer := unfound_lt (exists_file_of_leads hd hleads).2.2
            fun h => hnew (List.mem_cons_of_mem _ h)
          omega
        obtain ⟨below, hbelow⟩ := ih _ hless _ (Nat.le_refl _) (references path content)
          fun r hr _ => reaches_of_mem_references hreach (by rwa [contentOf, if_neg hne]) hr
        have hless' : (unfound d (found ++ path :: below)).length < n := by
          have hle := length_unfound_append_le d (found ++ [path]) below
          rw [List.append_assoc, List.singleton_append] at hle
          omega
        obtain ⟨out, hout⟩ := ih _ hless' _ (Nat.le_refl _) rest hrest
        exact ⟨path :: below ++ out, .visit hleads hnew hcontent (by simpa using hbelow) hout⟩

/-! ## What the search discovers -/

/-- Nothing is discovered twice, and nothing that is known. -/
theorem Discovery.nodup {seen out : List String} {refs : List Reference}
    (h : Discovery d s seen refs out) : out.Nodup ∧ ∀ path ∈ out, path ∉ seen := by
  induction h with
  | done => simp
  | skip _ _ ih => exact ih
  | @visit seen refs below after r path content _ hnew _ _ _ ihbelow ihrest =>
    obtain ⟨hbelow, hbelowNew⟩ := ihbelow
    obtain ⟨hafter, hafterNew⟩ := ihrest
    constructor
    · refine List.Nodup.append (List.nodup_cons.2 ⟨?_, hbelow⟩) hafter ?_
      · exact fun hmem => hbelowNew path hmem (by simp)
      · intro other hother hmem
        exact hafterNew other hmem (List.mem_append_right _ hother)
    · intro other hother hseen
      rcases List.mem_append.1 hother with hother | hother
      · rcases List.mem_cons.1 hother with rfl | hother
        · exact hnew hseen
        · exact hbelowNew other hother (List.mem_append_left _ hseen)
      · exact hafterNew other hother (List.mem_append_left _ hseen)

/-- What is discovered is an absolute path of a file. -/
theorem Discovery.isFile (hd : d.WellFormed) {seen out : List String} {refs : List Reference}
    (h : Discovery d s seen refs out) :
    ∀ path ∈ out, d.isFile path = true ∧ d.absolute path = path := by
  induction h with
  | done => simp
  | skip _ _ ih => exact ih
  | visit hleads _ _ _ _ ihbelow ihrest =>
    intro other hother
    rcases List.mem_append.1 hother with hother | hother
    · rcases List.mem_cons.1 hother with rfl | hother
      · exact ⟨(exists_file_of_leads hd hleads).1, (exists_file_of_leads hd hleads).2.1⟩
      · exact ihbelow other hother
    · exact ihrest other hother

/-- What is discovered behind references that lead to reached paths is reached. -/
theorem Discovery.reaches {seen out : List String} {refs : List Reference}
    (h : Discovery d s seen refs out) (hentry : entry ∈ seen)
    (hrefs : ∀ r ∈ refs, ∀ path, Leads d s r.origin r.target path → Reaches d s entry text path) :
    ∀ path ∈ out, Reaches d s entry text path := by
  induction h with
  | done => simp
  | skip _ _ ih => exact ih hentry fun r hr => hrefs r (List.mem_cons_of_mem _ hr)
  | @visit seen refs below after r path content hleads hnew hcontent _ _ ihbelow ihrest =>
    have hreach := hrefs r (List.mem_cons_self ..) path hleads
    have hne : path ≠ entry := fun e => hnew (e ▸ hentry)
    have hpath : contentOf d entry text path = .ok content := by rwa [contentOf, if_neg hne]
    have hbelow := ihbelow (List.mem_append_left _ hentry)
      fun r hr _ => reaches_of_mem_references hreach hpath hr
    have hafter := ihrest (List.mem_append_left _ hentry)
      fun r hr => hrefs r (List.mem_cons_of_mem _ hr)
    intro other hother
    rcases List.mem_append.1 hother with hother | hother
    · rcases List.mem_cons.1 hother with rfl | hother
      · exact hreach
      · exact hbelow other hother
    · exact hafter other hother

/-- Whatever a reference leads to is known or discovered. -/
theorem Discovery.covers {seen out : List String} {refs : List Reference}
    (h : Discovery d s seen refs out) : ∀ r ∈ refs, ∀ path, Leads d s r.origin r.target path →
      path ∈ seen ++ out := by
  induction h with
  | done => simp
  | skip hold _ ih =>
    intro r hr path hleads
    rcases List.mem_cons.1 hr with rfl | hr
    · exact List.mem_append_left _ (hold path hleads)
    · exact ih r hr path hleads
  | @visit seen refs below after r path content hleads _ _ _ _ _ ihrest =>
    intro other hother target htarget
    rcases List.mem_cons.1 hother with rfl | hother
    · obtain rfl := htarget.unique hleads
      simp
    · have h := ihrest other hother target htarget
      simp only [List.mem_append, List.mem_cons] at h ⊢
      tauto

/-- Whatever a discovered path imports is known or discovered. -/
theorem Discovery.closed {seen out : List String} {refs : List Reference}
    (h : Discovery d s seen refs out) (hentry : entry ∈ seen) : ∀ origin ∈ out, ∀ path,
      Imports d s entry text origin path → path ∈ seen ++ out := by
  induction h with
  | done => simp
  | skip _ _ ih => exact ih hentry
  | @visit seen refs below after r path content hleads hnew hcontent hbelow _ ihbelow ihrest =>
    intro origin horigin target himports
    rcases List.mem_append.1 horigin with horigin | horigin
    · have hmem : target ∈ (seen ++ [path]) ++ below := by
        rcases List.mem_cons.1 horigin with rfl | horigin
        · obtain ⟨c, hc, statement, hstatement, htarget⟩ := himports
          have hne : origin ≠ entry := fun e => hnew (e ▸ hentry)
          obtain rfl : content = c := by simpa [contentOf, hne, hcontent] using hc
          exact hbelow.covers ⟨origin, statement.target⟩
            (List.mem_map.2 ⟨statement, hstatement, rfl⟩) target htarget
        · exact ihbelow (List.mem_append_left _ hentry) origin horigin target himports
      simp only [List.mem_append, List.mem_cons] at hmem ⊢
      tauto
    · have h := ihrest (List.mem_append_left _ hentry) origin horigin target himports
      simp only [List.mem_append, List.mem_cons] at h ⊢
      tauto

/-- The references of the entry lead to what it reaches. -/
theorem reaches_of_mem_references_entry : ∀ r ∈ references entry text, ∀ path,
    Leads d s r.origin r.target path → Reaches d s entry text path :=
  fun _ hr _ => reaches_of_mem_references .refl (by simp [contentOf]) hr

/-- What the search discovers from the entry is what the entry reaches. -/
theorem Discovery.mem_iff_reaches {out : List String}
    (h : Discovery d s [entry] (references entry text) out) (path : String) :
    path ∈ out ↔ path ≠ entry ∧ Reaches d s entry text path := by
  constructor
  · intro hpath
    exact ⟨by simpa using h.nodup.2 path hpath,
      h.reaches (by simp) reaches_of_mem_references_entry path hpath⟩
  · rintro ⟨hne, hreach⟩
    have hmem : path ∈ [entry] ++ out := by
      induction hreach with
      | refl => simp
      | @tail origin target _ himports ih =>
        by_cases horigin : origin = entry
        · subst horigin
          obtain ⟨content, hcontent, statement, hstatement, hleads⟩ := himports
          obtain rfl : text = content := by simpa [contentOf] using hcontent
          exact h.covers ⟨origin, statement.target⟩
            (List.mem_map.2 ⟨statement, hstatement, rfl⟩) target hleads
        · have hout : origin ∈ out := by simpa [horigin] using ih horigin
          exact h.closed (by simp) origin hout target himports
    simpa [hne] using hmem

/-- What is reached can be read where all files hold text. -/
theorem exists_text_of_reaches (hd : d.WellFormed)
    (hfiles : ∀ file ∈ d.files, ∃ content, Disk.textOf file.2 = .ok content) {path : String}
    (hreach : Reaches d s entry text path) (hne : path ≠ entry) :
    ∃ content, d.readText path = .ok content := by
  rcases hreach.cases_tail with rfl | ⟨origin, _, content, _, statement, _, hleads⟩
  · exact absurd rfl hne
  · obtain ⟨location, bytes, changed, hlocate, hnode⟩ :=
      Disk.isFile_iff.1 (exists_file_of_leads hd hleads).1
    obtain ⟨content, hcontent⟩ := hfiles (location, bytes)
      (List.mem_filterMap.2 ⟨_, Table.mem_of_get? hnode, rfl⟩)
    exact ⟨content, by rw [Disk.readText_of_locate hlocate hnode, hcontent]⟩

/-- Where the search comes to an end, the walk gives what it discovers. -/
theorem dependencies_of_discovery (hd : d.WellFormed) (hs : s.IsSteady d) {out : List String}
    (h : Discovery d s [entry] (references entry text) out) :
    dependencies d s entry text = .ok out := by
  obtain ⟨asked, hwalk⟩ := walk_append hd hs h [] rfl 0 []
  rw [dependencies_eq_walk, ← List.append_nil (references entry text), hwalk, walk]
  rfl

/-- The search comes to an end, and the walk with it, as long as the reached files hold text. -/
theorem exists_dependencies_discovery (hd : d.WellFormed) (hs : s.IsSteady d)
    (htext : ∀ path, Reaches d s entry text path → path ≠ entry →
      ∃ content, d.readText path = .ok content) :
    ∃ found, dependencies d s entry text = .ok found ∧
      Discovery d s [entry] (references entry text) found := by
  obtain ⟨found, h⟩ := exists_discovery hd htext _ [] (Nat.le_refl _) _
    reaches_of_mem_references_entry
  exact ⟨found, dependencies_of_discovery hd hs h, h⟩

/-- The dependencies of a text are exactly the paths that the entry reaches, without the entry
itself, each once, in the order in which a depth-first search discovers them; each is the absolute
path of a file. Imports may form cycles, and the hook may redirect them, as long as the reached
files hold text. -/
theorem dependencies_reachable (hd : d.WellFormed) (hs : s.IsSteady d)
    (htext : ∀ path, Reaches d s entry text path → path ≠ entry →
      ∃ content, d.readText path = .ok content) :
    ∃ found, dependencies d s entry text = .ok found ∧
      (∀ path, path ∈ found ↔ path ≠ entry ∧ Reaches d s entry text path) ∧
      Discovery d s [entry] (references entry text) found ∧ found.Nodup ∧ entry ∉ found ∧
      ∀ path ∈ found, d.isFile path = true ∧ d.absolute path = path := by
  obtain ⟨found, hfound, h⟩ := exists_dependencies_discovery hd hs htext
  refine ⟨found, hfound, h.mem_iff_reaches, h, h.nodup.1, ?_, h.isFile hd⟩
  intro hentry
  exact h.nodup.2 entry hentry (by simp)

theorem statements_single : Import.statements "@import 'a';" = [⟨"@import 'a';", "a"⟩] :=
  Import.statements_of_parse? [] (by decide) (by decide) (by decide)

/-- A disk on which two stylesheets import each other, and one of them the entry. -/
def ring : Disk where
  nodes := [([], .directory ⟨0⟩), (["s"], .directory ⟨0⟩),
    (["s", "a.scss"], .file (Text.Utf8.encode "@import 'b';".toList) ⟨0⟩),
    (["s", "b.scss"], .file (Text.Utf8.encode "@import 'a';@import 'main';".toList) ⟨0⟩),
    (["s", "main.scss"], .file (Text.Utf8.encode "@import 'a';".toList) ⟨0⟩)]
  home := ["s"]
  clock := ⟨1⟩

/-- A search without a hook. -/
def plainSearch : Search := ⟨[], true, none, ["css", "scss"]⟩

theorem wellFormed_ring : ring.WellFormed :=
  .of_nodes (by decide +kernel) (by decide +kernel) (by decide +kernel)

/-- All files of the ring hold text. -/
theorem exists_text_ring {path : String} (hreach : Reaches ring s entry text path)
    (hne : path ≠ entry) : ∃ content, ring.readText path = .ok content := by
  refine exists_text_of_reaches wellFormed_ring ?_ hreach hne
  intro file hfile
  simp only [Disk.files, ring, List.filterMap_cons, List.filterMap_nil, List.mem_cons,
    List.not_mem_nil, or_false] at hfile
  rcases hfile with rfl | rfl | rfl
  · exact ⟨_, Disk.textOf_encode (by decide)⟩
  · exact ⟨_, Disk.textOf_encode (by decide)⟩
  · exact ⟨_, Disk.textOf_encode (by decide)⟩

/-- On the ring the entry reaches the other stylesheets, and the walk ends without it. -/
theorem dependencies_ring : ring.WellFormed ∧ plainSearch.IsSteady ring ∧
    (∀ path, Reaches ring plainSearch "/s/main.scss" "@import 'a';" path →
      path ≠ "/s/main.scss" → ∃ content, ring.readText path = .ok content) ∧
    ∃ found, dependencies ring plainSearch "/s/main.scss" "@import 'a';" = .ok found ∧
      "/s/a.scss" ∈ found ∧ "/s/main.scss" ∉ found ∧ found.Nodup := by
  have hsteady : plainSearch.IsSteady ring := by
    intro hook hhook
    cases hhook
  have htext : ∀ path, Reaches ring plainSearch "/s/main.scss" "@import 'a';" path →
      path ≠ "/s/main.scss" → ∃ content, ring.readText path = .ok content :=
    fun _ => exists_text_ring
  refine ⟨wellFormed_ring, hsteady, htext, ?_⟩
  obtain ⟨found, hfound, hmem, -, hnodup, hentry, -⟩ :=
    dependencies_reachable wellFormed_ring hsteady htext
  have hleads : Leads ring plainSearch "/s/main.scss" "a" "/s/a.scss" :=
    ⟨by decide, "a", rfl, by decide +kernel⟩
  have himports : Imports ring plainSearch "/s/main.scss" "@import 'a';" "/s/main.scss"
      "/s/a.scss" := ⟨_, rfl, ⟨"@import 'a';", "a"⟩, by simp [statements_single], hleads⟩
  exact ⟨found, hfound, (hmem _).2 ⟨by decide, .single himports⟩, hentry, hnodup⟩

end StyleBundle.Dependency
