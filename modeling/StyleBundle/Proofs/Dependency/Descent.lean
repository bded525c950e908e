import Mathlib.Data.Set.Card
import StyleBundle.Proofs.Dependency.Transfer
import StyleBundle.Proofs.Dependency.Traversal

/-!
# How deep the walk goes

The walk is compared with the search by recursion, call by call: a call follows the references of
one text, opens every new file that they lead to, and makes a further call for its text. Nothing but
the record of the files found so far keeps the calls from going on for ever, since imports may form
cycles and the hook may answer the same question in another way each time. Every further call is
made for a path of its own, so there are no more of them than paths to which targets can lead.
-/

namespace StyleBundle.Dependency

/-- What following some references by recursion comes to. -/
structure Descent where
  /-- The number of references followed when it is over. -/
  asked : ℕ
  /-- The files found by then, or the failure. -/
  outcome : Except Failure (List String)
  /-- The paths that are opened, in order. -/
  opened : List String
  /-- The number of further calls. -/
  calls : ℕ
  /-- The number of further calls that are under way at one time, at most. -/
  depth : ℕ

namespace Descent

/-- Nothing is left to follow. -/
def finish (asked : ℕ) (found : List String) : Descent := ⟨asked, .ok found, [], 0, 0⟩

/-- Something fails. -/
def stop (asked : ℕ) (failure : Failure) : Descent := ⟨asked, .error failure, [], 0, 0⟩

/-- A path is opened before. -/
def behind (path : String) (run : Descent) : Descent := { run with opened := path :: run.opened }

/-- What happens in a call, seen from the one that makes it. -/
def called (run : Descent) : Descent := { run with calls := run.calls + 1, depth := run.depth + 1 }

/-- One after the other. -/
def andThen (run next : Descent) : Descent where
  asked := next.asked
  outcome := next.outcome
  opened := run.opened ++ next.opened
  calls := run.calls + next.calls
  depth := max run.depth next.depth

end Descent

/-- Following references by recursion, from the number of references followed before and the files
found before. A new file is opened, and what its text refers to is followed in a call of its own
before the remaining references are. -/
inductive Descends (d : Disk) (s : Search) (entry : String) :
    (asked : ℕ) → List Reference → (found : List String) → Descent → Prop
  /-- No reference is left. -/
  | finish {asked found} : Descends d s entry asked [] found (.finish asked found)
  /-- The hook fails. -/
  | fail {asked r rest found failure} (hfollow : follow d s asked r = .error failure) :
      Descends d s entry asked (r :: rest) found (.stop (asked + 1) failure)
  /-- A reference that leads nowhere, or to a known path. -/
  | skip {asked r rest found next run} (hfollow : follow d s asked r = .ok next)
      (hold : ∀ path, next = some path → path ∈ entry :: found)
      (hrest : Descends d s entry (asked + 1) rest found run) :
      Descends d s entry asked (r :: rest) found run
  /-- A new path that the disk refuses to read is passed. -/
  | refuse {asked r rest found path cause refused run}
      (hfollow : follow d s asked r = .ok (some path)) (hnew : path ∉ entry :: found)
      (hread : d.readText path = .error (.disk (.refused cause refused)))
      (hrest : Descends d s entry (asked + 1) rest (found ++ [path]) run) :
      Descends d s entry asked (r :: rest) found (run.behind path)
  /-- A new path that cannot be read for another reason. -/
  | spoil {asked r rest found path failure}
      (hfollow : follow d s asked r = .ok (some path)) (hnew : path ∉ entry :: found)
      (hread : d.readText path = .error failure)
      (hother : ∀ cause refused, failure ≠ .disk (.refused cause refused)) :
      Descends d s entry asked (r :: rest) found ((Descent.stop (asked + 1) failure).behind path)
  /-- A new path with a call that fails. -/
  | sink {asked r rest found path content below failure}
      (hfollow : follow d s asked r = .ok (some path)) (hnew : path ∉ entry :: found)
      (hread : d.readText path = .ok content)
      (hbelow : Descends d s entry (asked + 1) (references path content) (found ++ [path]) below)
      (hfails : below.outcome = .error failure) :
      Descends d s entry asked (r :: rest) found (below.called.behind path)
  /-- A new path with a call that returns. -/
  | enter {asked r rest found path content below out run}
      (hfollow : follow d s asked r = .ok (some path)) (hnew : path ∉ entry :: found)
      (hread : d.readText path = .ok content)
      (hbelow : Descends d s entry (asked + 1) (references path content) (found ++ [path]) below)
      (hreturns : below.outcome = .ok out)
      (hrest : Descends d s entry below.asked rest out run) :
      Descends d s entry asked (r :: rest) found ((below.called.andThen run).behind path)

variable {d : Disk} {s : Search} {entry text : String} {asked : ℕ} {refs : List Reference}
  {found : List String} {run other : Descent}

/-! ## What is opened -/

/-- What is new behind other paths is new. -/
theorem new_of_new_append {path : String} {more : List String}
    (h : path ∉ entry :: (found ++ more)) : path ∉ entry :: found := fun hold =>
  h (List.cons_subset_cons entry (List.subset_append_left found more) hold)

/-- A new path is opened before others, which are new when it is found. -/
theorem nodup_cons_of_new {path : String} {opened : List String} (hnew : path ∉ entry :: found)
    (hnodup : opened.Nodup) (hlater : ∀ later ∈ opened, later ∉ entry :: (found ++ [path])) :
    (path :: opened).Nodup ∧ ∀ later ∈ path :: opened, later ∉ entry :: found :=
  ⟨List.nodup_cons.2 ⟨fun hmem => hlater path hmem (by simp), hnodup⟩,
    List.forall_mem_cons.2 ⟨hnew, fun later hmem => new_of_new_append (hlater later hmem)⟩⟩

/-- Every opened path is new when it is opened, and what is found in the end is what was found
before and what is opened. -/
theorem Descends.opened_new (h : Descends d s entry asked refs found run) :
    run.opened.Nodup ∧ (∀ path ∈ run.opened, path ∉ entry :: found) ∧
      ∀ out, run.outcome = .ok out → out = found ++ run.opened := by
  induction h with
  | finish => exact ⟨List.nodup_nil, by simp [Descent.finish], fun out h => by
      simpa [Descent.finish] using (Except.ok.inj h).symm⟩
  | fail => exact ⟨List.nodup_nil, by simp [Descent.stop], fun out h => by cases h⟩
  | skip _ _ _ ih => exact ih
  | refuse _ hnew _ _ ih =>
    obtain ⟨hnodup, hlater, hout⟩ := ih
    obtain ⟨hnodup', hlater'⟩ := nodup_cons_of_new hnew hnodup hlater
    exact ⟨hnodup', hlater', fun out h => by simpa [Descent.behind] using hout out h⟩
  | spoil _ hnew _ _ =>
    obtain ⟨hnodup, hlater⟩ := nodup_cons_of_new hnew List.nodup_nil (List.forall_mem_nil _)
    exact ⟨hnodup, hlater, fun out h => by cases h⟩
  | sink _ hnew _ _ hfails ih =>
    obtain ⟨hnodup, hlater, -⟩ := ih
    obtain ⟨hnodup', hlater'⟩ := nodup_cons_of_new hnew hnodup hlater
    refine ⟨hnodup', hlater', fun out h => ?_⟩
    cases hfails.symm.trans h
  | enter _ hnew _ _ hreturns _ ihbelow ihrest =>
    obtain ⟨hnodupBelow, hbelow, hfound⟩ := ihbelow
    obtain rfl := hfound _ hreturns
    obtain ⟨hnodupRest, hrest, hout⟩ := ihrest
    have hnodup := List.Nodup.append hnodupBelow hnodupRest
      fun path hpath hlater => hrest path hlater (by simp [hpath])
    have hlater := List.forall_mem_append.2
      ⟨hbelow, fun path hpath => new_of_new_append (hrest path hpath)⟩
    obtain ⟨hnodup', hlater'⟩ := nodup_cons_of_new hnew hnodup hlater
    exact ⟨hnodup', hlater', fun out h => by
      simpa [Descent.behind, Descent.andThen, Descent.called] using hout out h⟩

/-- Targets lead to every opened path. -/
theorem Descends.exists_resolve (h : Descends d s entry asked refs found run) :
    ∀ path ∈ run.opened, ∃ origin target, resolve d s origin target = some path := by
  have hled {asked : ℕ} {r : Reference} {path : String}
      (hfollow : follow d s asked r = .ok (some path)) :
      ∃ origin target, resolve d s origin target = some path :=
    ⟨_, exists_resolve_of_follow hfollow⟩
  induction h with
  | finish | fail => exact List.forall_mem_nil _
  | skip _ _ _ ih => exact ih
  | refuse hfollow _ _ _ ih => exact List.forall_mem_cons.2 ⟨hled hfollow, ih⟩
  | spoil hfollow => exact List.forall_mem_cons.2 ⟨hled hfollow, List.forall_mem_nil _⟩
  | sink hfollow _ _ _ _ ih => exact List.forall_mem_cons.2 ⟨hled hfollow, ih⟩
  | enter hfollow _ _ _ _ _ ihbelow ihrest =>
    exact List.forall_mem_cons.2 ⟨hled hfollow, List.forall_mem_append.2 ⟨ihbelow, ihrest⟩⟩

/-- Every call is made for an opened path, and the calls that are under way at one time are made for
different ones. -/
theorem Descends.calls_le (h : Descends d s entry asked refs found run) :
    run.depth ≤ run.calls ∧ run.calls ≤ run.opened.length := by
  induction h with
  | finish | fail | spoil => simp [Descent.finish, Descent.stop, Descent.behind]
  | skip _ _ _ ih => exact ih
  | refuse _ _ _ _ ih =>
    simp only [Descent.behind, List.length_cons]
    omega
  | sink _ _ _ _ _ ih =>
    simp only [Descent.behind, Descent.called, List.length_cons]
    omega
  | enter _ _ _ _ _ _ ihbelow ihrest =>
    simp only [Descent.behind, Descent.called, Descent.andThen, List.length_cons,
      List.length_append]
    omega

/-! ## The recursion comes to one end -/

/-- What following references comes to is determined: every reference is followed in one way, and
the file that it leads to is read in one way. -/
theorem Descends.unique (h : Descends d s entry asked refs found run)
    (hother : Descends d s entry asked refs found other) : other = run := by
  induction h generalizing other with
  | finish =>
    cases hother
    rfl
  | fail | skip | refuse | spoil | sink | enter => cases hother <;> grind

/-- Following references comes to an end, whatever the hook answers. A call leaves fewer paths to
find, and so does what is behind it. -/
theorem exists_descends (hd : d.WellFormed) (s : Search) (entry : String) (n asked : ℕ)
    (found : List String) (hn : (unfound d found).length ≤ n) (refs : List Reference) :
    ∃ run, Descends d s entry asked refs found run := by
  induction n using Nat.strongRecOn generalizing asked found refs with
  | ind n ih =>
    induction refs generalizing asked with
    | nil => exact ⟨_, .finish⟩
    | cons r rest ihrest =>
      cases hfollow : follow d s asked r with
      | error failure => exact ⟨_, .fail hfollow⟩
      | ok next =>
        by_cases hold : ∀ path, next = some path → path ∈ entry :: found
        · obtain ⟨run, hrest⟩ := ihrest (asked + 1)
          exact ⟨run, .skip hfollow hold hrest⟩
        · push Not at hold
          obtain ⟨path, rfl, hnew⟩ := hold
          obtain ⟨sought, hresolve⟩ := exists_resolve_of_follow hfollow
          have hless : (unfound d (found ++ [path])).length < n := by
            have hfewer := unfound_lt (mem_filePaths_of_resolve hd hresolve)
              fun h => hnew (List.mem_cons_of_mem _ h)
            omega
          cases hread : d.readText path with
          | error failure =>
            by_cases hrefused : ∃ cause refused, failure = .disk (.refused cause refused)
            · obtain ⟨cause, refused, rfl⟩ := hrefused
              obtain ⟨run, hrest⟩ := ih _ hless (asked + 1) _ (Nat.le_refl _) rest
              exact ⟨_, .refuse hfollow hnew hread hrest⟩
            · push Not at hrefused
              exact ⟨_, .spoil hfollow hnew hread hrefused⟩
          | ok content =>
            obtain ⟨below, hbelow⟩ :=
              ih _ hless (asked + 1) _ (Nat.le_refl _) (references path content)
            cases houtcome : below.outcome with
            | error failure => exact ⟨_, .sink hfollow hnew hread hbelow houtcome⟩
            | ok out =>
              have hless' : (unfound d out).length < n := by
                rw [hbelow.opened_new.2.2 out houtcome]
                have hle := length_unfound_append_le d (found ++ [path]) below.opened
                omega
              obtain ⟨run, hrest⟩ := ih _ hless' below.asked _ (Nat.le_refl _) rest
              exact ⟨_, .enter hfollow hnew hread hbelow houtcome hrest⟩

/-! ## The walk -/

/-- Where the recursion returns, the walk goes on with what is pending behind; where it fails, the
walk fails in the same way. -/
theorem Descends.walk_eq (hd : d.WellFormed) (h : Descends d s entry asked refs found run)
    (rest : List Reference) : walk d s entry asked (refs ++ rest) found =
      match run.outcome with
      | .ok out => walk d s entry run.asked rest out
      | .error failure => .error failure := by
  induction h generalizing rest with
  | finish => rfl
  | fail hfollow =>
    rw [List.cons_append, walk, hfollow]
    rfl
  | skip hfollow hold _ ih => rw [List.cons_append, walk_of_known hfollow hold, ih]
  | refuse hfollow hnew hread _ ih =>
    rw [List.cons_append, walk_of_new hd hfollow hnew, hread]
    exact ih rest
  | spoil hfollow hnew hread hother =>
    rw [List.cons_append, walk_of_new hd hfollow hnew, hread]
    simp only [Descent.behind, Descent.stop]
  | sink hfollow hnew hread _ hfails ih =>
    rw [List.cons_append, walk_of_new hd hfollow hnew, hread]
    simp only [ih, hfails, Descent.behind, Descent.called]
  | enter hfollow hnew hread _ hreturns _ ihbelow ihrest =>
    rw [List.cons_append, walk_of_new hd hfollow hnew, hread]
    simp only [ihbelow, hreturns, ihrest, Descent.behind, Descent.andThen]

/-- The paths to which targets can lead, from whatever file. -/
def resolvable (d : Disk) (s : Search) : Set String :=
  {path | ∃ origin target, resolve d s origin target = some path}

/-- Targets can lead to finitely many paths. -/
theorem finite_resolvable (hd : d.WellFormed) (s : Search) : (resolvable d s).Finite := by
  refine (List.finite_toSet (filePaths d)).subset ?_
  rintro path ⟨origin, target, hresolve⟩
  exact mem_filePaths_of_resolve hd hresolve

/-- Different paths to which targets can lead are no more than there are. -/
theorem length_le_ncard_resolvable (hd : d.WellFormed) {paths : List String} (hnodup : paths.Nodup)
    (hpaths : ∀ path ∈ paths, path ∈ resolvable d s) :
    paths.length ≤ (resolvable d s).ncard := by
  rw [← List.toFinset_card_of_nodup hnodup, ← Set.ncard_coe_finset]
  refine Set.ncard_le_ncard (fun path hpath => hpaths path ?_) (finite_resolvable hd s)
  simpa using hpath

/-- The walk ends, on cyclic imports too, whatever the hook answers and however its answers vary.
The recursion that it carries out comes to exactly one end, which gives what the walk gives. It
opens no path twice and never the entry, so that it opens no more paths, and makes no more further
calls, than there are paths to which targets can lead, and with the first call there are under way
at one time at most one more. -/
theorem exists_descent (hd : d.WellFormed) (s : Search) (entry text : String) : ∃ run,
    (∀ other, Descends d s entry 0 (references entry text) [] other ↔ other = run) ∧
    dependencies d s entry text = run.outcome ∧
    run.opened.Nodup ∧ (∀ path ∈ run.opened, path ≠ entry ∧ path ∈ resolvable d s) ∧
    (resolvable d s).Finite ∧ run.opened.length ≤ (resolvable d s).ncard ∧
    run.calls ≤ run.opened.length ∧ run.depth + 1 ≤ (resolvable d s).ncard + 1 := by
  obtain ⟨run, hrun⟩ := exists_descends hd s entry _ 0 [] (Nat.le_refl _) (references entry text)
  obtain ⟨hnodup, hnew, -⟩ := hrun.opened_new
  obtain ⟨hdepth, hcalls⟩ := hrun.calls_le
  have hopened : ∀ path ∈ run.opened, path ≠ entry ∧ path ∈ resolvable d s := fun path hpath =>
    ⟨by simpa using hnew path hpath, hrun.exists_resolve path hpath⟩
  have hlength := length_le_ncard_resolvable hd hnodup fun path hpath => (hopened path hpath).2
  refine ⟨run, fun other => ⟨hrun.unique, fun h => h ▸ hrun⟩, ?_, hnodup, hopened,
    finite_resolvable hd s, hlength, hcalls, by omega⟩
  rw [dependencies_eq_walk, ← List.append_nil (references entry text), hrun.walk_eq hd]
  cases run.outcome with
  | ok out => simp only [walk]
  | error failure => rfl

/-- A hook that sends the references in turn to one file and to another, whatever they are. -/
def fickle : Import.Hook where
  answer asked _ _ _ := .ok (some ⟨some (if asked % 2 = 0 then "a" else "b"), none, none⟩)

/-- On the ring the recursion ends though the hook keeps changing its answers. -/
theorem exists_descent_ring : ring.WellFormed ∧ ∃ run,
    Descends ring { plainSearch with hook := some fickle } "/s/main.scss" 0
      (references "/s/main.scss" "@import 'a';") [] run ∧
    dependencies ring { plainSearch with hook := some fickle } "/s/main.scss" "@import 'a';" =
      run.outcome ∧ run.opened.Nodup ∧ "/s/main.scss" ∉ run.opened := by
  obtain ⟨run, hrun, hwalk, hnodup, hopened, -⟩ := exists_descent wellFormed_ring
    { plainSearch with hook := some fickle } "/s/main.scss" "@import 'a';"
  exact ⟨wellFormed_ring, run, (hrun run).2 rfl, hwalk, hnodup, fun h => (hopened _ h).1 rfl⟩

end StyleBundle.Dependency
