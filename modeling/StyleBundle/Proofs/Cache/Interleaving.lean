import StyleBundle.Proofs.Cache.Filling
import StyleBundle.Proofs.Cache.History
import StyleBundle.Proofs.Transform.Turns

/-!
# Passes that do not interfere

Passes over different sources that take turns share the disk with the cache, the compiler and the
resources. Yet however their parts follow each other, every pass ends as if it had been alone, as
long as the sources stand apart from the cache.
-/

namespace StyleBundle.Cache

open Transform (Pass World Stage Task settle transform usesCache entryFor compiled kindOf
  resourcesOf hookFor Furnished Matches)

variable {ι : Type} {settings : Settings} {p : Project} {first w : World ι} {written : ι → Prop}
  {i j : ι} {pass mid : Pass} {stage : Stage}

/-- Tasks over different sources, with a compiler that makes its report of the request alone. -/
structure Separate (settings : Settings) (p : Project) (first : World ι) : Prop where
  /-- Nothing has been done. -/
  fresh : ∀ i, (first.tasks i).stage = .fresh
  /-- The disk is a tree. -/
  wellFormed : first.session.disk.WellFormed
  /-- The sources are different. -/
  paths : Function.Injective first.path
  /-- Their digests are, too. -/
  digests : ∀ i j, fileName (first.path i) = fileName (first.path j) → first.path i = first.path j
  /-- The compiler makes its report of the request alone. -/
  functional : ∀ i kind, kindOf (first.pass i) = .ok kind → kind.IsFunctional (hookFor settings p)
  /-- The hook, if there is one, takes no notice of entries. -/
  hook : IgnoresEntries (hookFor settings p) first.session.disk

/-- Such tasks over sources that stand apart from the cache. -/
structure Independent (settings : Settings) (p : Project) (first : World ι) : Prop
    extends Separate settings p first where
  /-- The sources stand apart from the cache. -/
  apart : StandApart settings p first.session.disk first.path

/-- Sources with the same digest are those of one task. -/
theorem Separate.eq_of_fileName (h : Separate settings p first) (i j : ι)
    (heq : fileName (first.path i) = fileName (first.path j)) : i = j :=
  h.paths (h.digests i j heq)

/-- What has become of a task by now, compared with the same task on its own. -/
inductive Follows (settings : Settings) (p : Project) (first w : World ι) (written : ι → Prop)
    (i : ι) : Prop
  /-- Nothing has been done, and its entry has not been written. -/
  | fresh (hstage : (w.tasks i).stage = .fresh) (htask : w.tasks i = first.tasks i)
      (hi : ¬ written i)
  /-- It waits with the stylesheet and the report that it would have on its own. -/
  | waiting {report : Report} {mid : Pass} (hstage : (w.tasks i).stage = .waiting report)
      (hlaunch : (Transform.launch settings p).run (first.pass i) = (.ok (some report), mid))
      (hsheet : (w.tasks i).sheet = mid.sheet) (hfurnished : Furnished settings w.session)
      (hi : ¬ written i)
  /-- It has ended as it would have on its own, with the same entry. -/
  | done {result : Except Failure Unit} {pass : Pass} (hstage : (w.tasks i).stage = .done result)
      (hrun : (transform settings p).run (first.pass i) = (result, pass))
      (hsheet : (w.tasks i).sheet = pass.sheet)
      (hentry : ∀ directory, p.cache = some directory →
        w.session.disk.readBytes (entryPath directory (first.path i) Transform.tag) =
          pass.session.disk.readBytes (entryPath directory (first.path i) Transform.tag))

/-- A world in which every task follows itself on its own. -/
structure Tracks (settings : Settings) (p : Project) (first w : World ι) (written : ι → Prop) :
    Prop where
  /-- The compiler compiles in the same way. -/
  kind : ∀ i, kindOf (w.pass i) = kindOf (first.pass i)
  /-- The resources are the same. -/
  resources : resourcesOf settings w.session = resourcesOf settings first.session
  /-- Nothing has become of the disk but that entries have come up. -/
  disk : Grows settings p first.session.disk first.path written w.session.disk
  /-- The tasks. -/
  task : ∀ i, Follows settings p first w written i

/-- At the start, nothing has been done. -/
theorem Independent.tracks (h : Independent settings p first) :
    Tracks settings p first first fun _ => False :=
  ⟨fun _ => rfl, rfl, .unwritten fun _ hi => hi, fun i => .fresh (h.fresh i) rfl fun hi => hi⟩

namespace Tracks

variable (h : Tracks settings p first w written) (hfirst : Independent settings p first)

include h hfirst

/-- An entry that has not been written is read as at the start. -/
theorem readBytes_entry (hi : ¬ written i) {directory : String}
    (hcache : p.cache = some directory) :
    w.session.disk.readBytes (entryPath directory (first.path i) Transform.tag) =
      first.session.disk.readBytes (entryPath directory (first.path i) Transform.tag) := by
  have hfind := h.disk.find_entry hfirst.wellFormed hfirst.apart hfirst.eq_of_fileName hi hcache
  simp only [Disk.readBytes, hfind]

/-- A task of which nothing has been done is bound to do what it would do on its own. -/
theorem matches_pass (htask : w.tasks i = first.tasks i) (hi : ¬ written i) :
    Matches settings p (first.path i) (first.pass i) (w.pass i) where
  source := rfl
  sheet := congrArg Task.sheet htask
  disk := h.disk.alike hfirst.wellFormed hfirst.hook hfirst.apart hfirst.eq_of_fileName hi
  kind := h.kind i
  functional := hfirst.functional i
  resources := h.resources

end Tracks

/-! ## One part -/

variable [DecidableEq ι]

/-- A task goes on following itself when a part of another one leaves its entry and the resources.
-/
theorem Follows.put {written' : ι → Prop} (h : Follows settings p first w written j) (hj : j ≠ i)
    (hwritten : ¬ written j → ¬ written' j)
    (hfurnished : Furnished settings w.session → Furnished settings pass.session)
    (hentry : ∀ directory, p.cache = some directory →
      pass.session.disk.find (entryPath directory (first.path j) Transform.tag) =
        w.session.disk.find (entryPath directory (first.path j) Transform.tag)) :
    Follows settings p first (w.put i pass stage) written' j := by
  have htask : (w.put i pass stage).tasks j = w.tasks j := World.tasks_put_of_ne hj ..
  cases h with
  | fresh hstage hsame hi =>
    exact .fresh (htask ▸ hstage) (htask.trans hsame) (hwritten hi)
  | waiting hstage hlaunch hsheet hready hi =>
    exact .waiting (htask ▸ hstage) hlaunch (htask ▸ hsheet) (hfurnished hready) (hwritten hi)
  | done hstage hrun hsheet hsame =>
    refine .done (htask ▸ hstage) hrun (htask ▸ hsheet) fun directory hcache => ?_
    rw [← hsame directory hcache]
    simp only [World.session_put, Disk.readBytes, hentry directory hcache]

/-- What a part of a task leaves as it is for the others. -/
structure Spares (settings : Settings) (p : Project) (first w : World ι) (written' : ι → Prop)
    (i : ι) (pass : Pass) : Prop where
  /-- The compiler compiles in the same way. -/
  kind : kindOf pass = kindOf (w.pass i)
  /-- The resources are the same. -/
  resources : resourcesOf settings pass.session = resourcesOf settings w.session
  /-- Resources that have been read are kept. -/
  furnished : Furnished settings w.session → Furnished settings pass.session
  /-- Nothing has become of the disk but that entries have come up. -/
  disk : Grows settings p first.session.disk first.path written' pass.session.disk
  /-- The entries of the others are found the same. -/
  entries : ∀ j, j ≠ i → ∀ directory, p.cache = some directory →
    pass.session.disk.find (entryPath directory (first.path j) Transform.tag) =
      w.session.disk.find (entryPath directory (first.path j) Transform.tag)

namespace Tracks

/-- A part that spares the others goes on with them, if its own task follows itself. -/
theorem put {written' : ι → Prop} (h : Tracks settings p first w written)
    (hspares : Spares settings p first w written' i pass)
    (hwritten : ∀ j, j ≠ i → ¬ written j → ¬ written' j)
    (hown : Follows settings p first (w.put i pass stage) written' i) :
    Tracks settings p first (w.put i pass stage) written' where
  kind j := hspares.kind.trans (h.kind i)
  resources := hspares.resources.trans h.resources
  disk := hspares.disk
  task j := by
    by_cases hj : j = i
    · exact hj ▸ hown
    · exact (h.task j).put hj (hwritten j hj) hspares.furnished (hspares.entries j hj)

/-- A part with which its own task ends, as it does on its own. -/
theorem put_done {written' : ι → Prop} {result : Except Failure Unit} {alone : Pass}
    (h : Tracks settings p first w written) (hspares : Spares settings p first w written' i pass)
    (hwritten : ∀ j, j ≠ i → ¬ written j → ¬ written' j)
    (hrun : (transform settings p).run (first.pass i) = (result, alone))
    (hsheet : pass.sheet = alone.sheet)
    (hentry : ∀ directory, p.cache = some directory →
      pass.session.disk.readBytes (entryPath directory (first.path i) Transform.tag) =
        alone.session.disk.readBytes (entryPath directory (first.path i) Transform.tag)) :
    Tracks settings p first (w.put i pass (.done result)) written' :=
  h.put hspares hwritten
    (.done (World.stage_put_self ..) hrun ((World.sheet_put_self ..).trans hsheet) hentry)

variable (h : Tracks settings p first w written) (hfirst : Independent settings p first)

include h hfirst

/-- The first part of a task comes to the wait, or to the end, as it would on its own. -/
theorem launch (hstage : (w.tasks i).stage = .fresh) (htask : w.tasks i = first.tasks i)
    (hi : ¬ written i) : Tracks settings p first (w.step settings p i) written := by
  obtain ⟨hresult, hsheet⟩ := Transform.parallel_launch.same (h.matches_pass hfirst htask hi)
  have hterms := Transform.keepsTerms_launch settings p (w.pass i)
  have hterms' := Transform.keepsTerms_launch settings p (first.pass i)
  have hwhole := Transform.run_transform settings p (first.pass i)
  rw [World.step_of_fresh hstage]
  cases hrun : (Transform.launch settings p).run (w.pass i) with
  | mk result mid =>
    cases halone : (Transform.launch settings p).run (first.pass i) with
    | mk result' alone =>
      rw [hrun] at hresult hsheet hterms
      rw [halone] at hresult hsheet hterms' hwhole
      obtain rfl : result = result' := hresult
      have hdisk : mid.session.disk = w.session.disk := hterms.disk
      have hspares : Spares settings p first w written i mid :=
        ⟨hterms.kind, hterms.resources, hterms.furnished, hdisk ▸ h.disk,
          fun j _ directory _ => by rw [hdisk]⟩
      have hkept : ∀ j, j ≠ i → ¬ written j → ¬ written j := fun _ _ => id
      have hentry (directory : String) (hcache : p.cache = some directory) :
          mid.session.disk.readBytes (entryPath directory (first.path i) Transform.tag) =
            alone.session.disk.readBytes (entryPath directory (first.path i) Transform.tag) := by
        rw [hdisk, hterms'.disk]
        exact h.readBytes_entry hfirst hi hcache
      cases result with
      | error failure => exact h.put_done hspares hkept hwhole hsheet hentry
      | ok report =>
        cases report with
        | none => exact h.put_done hspares hkept hwhole hsheet hentry
        | some report =>
          have hready : Furnished settings mid.session := Transform.furnished_of_launch hrun
          exact h.put hspares hkept (.waiting (World.stage_put_self ..) halone
            ((World.sheet_put_self ..).trans hsheet) hready hi)

/-- The second part of a task that stores its entry: the disk takes it, or refuses it, as it would
take or refuse it from the task on its own. -/
theorem settle_store {directory : String} {output : Output}
    (hcache : p.cache = some directory) (huses : usesCache settings p = true)
    (hstage : (w.tasks i).stage = .waiting ⟨none, some output⟩)
    (hlaunch : (Transform.launch settings p).run (first.pass i) =
      (.ok (some ⟨none, some output⟩), mid))
    (hsheet : (w.tasks i).sheet = mid.sheet) (hfurnished : Furnished settings w.session)
    (hi : ¬ written i) : ∃ written', Tracks settings p first (w.step settings p i) written' := by
  obtain ⟨hdisk, hpath, hwhole⟩ := Transform.run_transform_of_launch hlaunch
  have hrun := Transform.settle_run hcache huses output (w.pass i)
  rw [Transform.settle_run hcache huses output mid, hdisk, World.session_pass] at hwhole
  have hpass : (w.pass i).sheet = mid.sheet := hsheet
  have hleft (disk disk' : Disk) :
      (compiled (w.pass i) output disk).sheet = (compiled mid output disk').sheet := by
    simp only [compiled, hpass]
  have hentry : (entryFor mid.sheet output).path = first.path i := hpath
  rw [hpass, World.session_pass] at hrun
  rw [World.step_of_waiting hstage]
  rcases h.disk.write hfirst.wellFormed hfirst.apart hfirst.eq_of_fileName hi hcache huses hentry
    rfl with ⟨failure, hfails, hfails'⟩ | ⟨after, after', hwrite, hwrite', hgrows, hothers⟩
  · rw [hfails'] at hrun
    rw [hfails] at hwhole
    have hspares : Spares settings p first w written i
        (compiled (w.pass i) output w.session.disk) := ⟨rfl, rfl, id, h.disk, fun _ _ _ _ => rfl⟩
    rw [hrun]
    exact ⟨written, h.put_done hspares (fun _ _ => id) hwhole (hleft ..) fun directory hcache =>
      h.readBytes_entry hfirst hi hcache⟩
  · rw [hwrite'] at hrun
    rw [hwrite] at hwhole
    have hspares : Spares settings p first w (fun j => written j ∨ j = i) i
        (compiled (w.pass i) output after') :=
      ⟨rfl, hfurnished.resourcesOf_eq rfl, id, hgrows, fun j hj other hother => by
        obtain rfl := Option.some.inj (hcache.symm.trans hother)
        exact hothers j hj⟩
    rw [hrun]
    refine ⟨_, h.put_done hspares (fun j hj hnot hor => hor.elim hnot hj) hwhole (hleft ..) ?_⟩
    intro other hother
    obtain rfl := Option.some.inj (hcache.symm.trans hother)
    rw [← hentry]
    exact (readBytes_of_writeEntry (h.disk.wellFormed hfirst.wellFormed) hwrite').trans
      (readBytes_of_writeEntry hfirst.wellFormed hwrite).symm

/-- The second part of a task that stores nothing. -/
theorem settle_keep {report : Report}
    (hstores : ∀ output directory, report = ⟨none, some output⟩ → p.cache = some directory →
      usesCache settings p = false)
    (hstage : (w.tasks i).stage = .waiting report)
    (hlaunch : (Transform.launch settings p).run (first.pass i) = (.ok (some report), mid))
    (hsheet : (w.tasks i).sheet = mid.sheet) (hi : ¬ written i) :
    Tracks settings p first (w.step settings p i) written := by
  obtain ⟨hdisk, -, hwhole⟩ := Transform.run_transform_of_launch hlaunch
  have hhome : w.session.disk.home = first.session.disk.home :=
    (h.disk.alike hfirst.wellFormed hfirst.hook hfirst.apart hfirst.eq_of_fileName hi).home
  obtain ⟨result, change, hsettle⟩ :=
    Transform.exists_settle_eq report hstores first.session.disk.home
  obtain ⟨records, hrun⟩ := hsettle (w.pass i) hhome
  obtain ⟨records', halone⟩ := hsettle mid (congrArg Disk.home hdisk)
  rw [World.step_of_waiting hstage, hrun]
  refine h.put_done ⟨rfl, rfl, id, h.disk, fun _ _ _ _ => rfl⟩ (fun _ _ => id)
    (hwhole.trans halone) (congrArg change hsheet) fun directory hcache => ?_
  rw [hdisk]
  exact h.readBytes_entry hfirst hi hcache

/-- The second part of a task. -/
theorem settle {report : Report} (hstage : (w.tasks i).stage = .waiting report)
    (hlaunch : (Transform.launch settings p).run (first.pass i) = (.ok (some report), mid))
    (hsheet : (w.tasks i).sheet = mid.sheet) (hfurnished : Furnished settings w.session)
    (hi : ¬ written i) : ∃ written', Tracks settings p first (w.step settings p i) written' := by
  by_cases hstores : ∀ output directory, report = ⟨none, some output⟩ → p.cache = some directory →
      usesCache settings p = false
  · exact ⟨written, h.settle_keep hfirst hstores hstage hlaunch hsheet hi⟩
  · push Not at hstores
    obtain ⟨output, directory, rfl, hcache, huses⟩ := hstores
    exact h.settle_store hfirst hcache (eq_true_of_ne_false huses) hstage hlaunch hsheet
      hfurnished hi

/-- Whichever task goes on, every task goes on following itself. -/
theorem step (i : ι) : ∃ written', Tracks settings p first (w.step settings p i) written' := by
  cases h.task i with
  | fresh hstage htask hi => exact ⟨written, h.launch hfirst hstage htask hi⟩
  | waiting hstage hlaunch hsheet hfurnished hi =>
    exact h.settle hfirst hstage hlaunch hsheet hfurnished hi
  | done hstage =>
    rw [World.step_of_done hstage]
    exact ⟨written, h⟩

/-- In whatever order the parts of the tasks follow each other, every task follows itself. -/
theorem interleave (schedule : List ι) :
    ∃ written', Tracks settings p first (w.interleave settings p schedule) written' := by
  induction schedule generalizing w written with
  | nil => exact ⟨written, h⟩
  | cons i rest ih =>
    obtain ⟨written', hstep⟩ := h.step hfirst i
    exact ih hstep

end Tracks

/-! ## All parts -/

variable {schedule order : List ι}

/-- A task both of whose parts have come has ended as on its own, however the parts of other tasks
have come between. -/
theorem Independent.exists_done (hfirst : Independent settings p first)
    (hschedule : 2 ≤ schedule.count i) : ∃ result pass,
      (transform settings p).run (first.pass i) = (result, pass) ∧
      ((first.interleave settings p schedule).tasks i).stage = .done result ∧
      ((first.interleave settings p schedule).tasks i).sheet = pass.sheet ∧
      ∀ directory, p.cache = some directory →
        (first.interleave settings p schedule).session.disk.readBytes
            (entryPath directory (first.path i) Transform.tag) =
          pass.session.disk.readBytes (entryPath directory (first.path i) Transform.tag) := by
  obtain ⟨result, hdone⟩ : ∃ result,
      ((first.interleave settings p schedule).tasks i).stage = .done result :=
    World.exists_done_of_interleave hschedule
  obtain ⟨written, htracks⟩ := hfirst.tracks.interleave hfirst schedule
  cases htracks.task i with
  | fresh hstage => cases hstage.symm.trans hdone
  | waiting hstage => cases hstage.symm.trans hdone
  | done hstage hrun hsheet hentry => exact ⟨_, _, hrun, hstage, hsheet, hentry⟩

/-- However the parts of independent tasks follow each other, each task ends as it does when the
whole tasks follow one another, in whatever order: with the same result, the same stylesheet and the
same entry. -/
theorem interleave_eq_inTurn (hfirst : Independent settings p first)
    (hschedule : 2 ≤ schedule.count i) (horder : i ∈ order) : ∃ result,
      ((first.interleave settings p schedule).tasks i).stage = .done result ∧
      ((first.inTurn settings p order).tasks i).stage = .done result ∧
      ((first.interleave settings p schedule).tasks i).sheet =
        ((first.inTurn settings p order).tasks i).sheet ∧
      ∀ directory, p.cache = some directory →
        (first.interleave settings p schedule).session.disk.readBytes
            (entryPath directory (first.path i) Transform.tag) =
          (first.inTurn settings p order).session.disk.readBytes
            (entryPath directory (first.path i) Transform.tag) := by
  have hfresh (j : ι) (report : Report) : (first.tasks j).stage ≠ .waiting report := by
    rw [hfirst.fresh j]
    exact Stage.noConfusion
  rw [World.inTurn_eq_interleave hfresh]
  obtain ⟨result, pass, hrun, hstage, hsheet, hentry⟩ := hfirst.exists_done hschedule
  obtain ⟨result', pass', hrun', hstage', hsheet', hentry'⟩ :=
    hfirst.exists_done (World.two_le_count_of_mem horder)
  obtain ⟨rfl, rfl⟩ := Prod.mk.inj (hrun.symm.trans hrun')
  exact ⟨result, hstage, hstage', hsheet.trans hsheet'.symm, fun directory hcache =>
    (hentry directory hcache).trans (hentry' directory hcache).symm⟩

/-! ## Two sources -/

/-- Fresh tasks over sources on a disk, with a compiler that makes empty text of everything. -/
def begin (d : Disk) (paths : ι → String) : World ι :=
  ⟨⟨d, none, none, none⟩, some emptyCompiler, fun i => ⟨.fresh (paths i) "", [], .fresh⟩⟩

omit [DecidableEq ι] in
theorem separate_begin {d : Disk} {paths : ι → String} (hd : d.WellFormed)
    (hdigests : ∀ i j, fileName (paths i) = fileName (paths j) → i = j) :
    Separate .default p (begin d paths) where
  fresh _ := rfl
  wellFormed := hd
  paths i j h := hdigests i j (congrArg fileName h)
  digests i j h := congrArg paths (hdigests i j h)
  functional i kind hkind := by
    obtain rfl : emptyCompiler.kind = kind := Except.ok.inj hkind
    refine ⟨fun _ => .ok ⟨none, some ⟨"", none⟩⟩, fun compiler hcompiler d request _ => ?_⟩
    rw [Compiler.render, hcompiler]
    rfl
  hook asker hasker := by cases hasker

/-- The stylesheet and the one that it imports. -/
def pairPaths : Fin 2 → String
  | 0 => "/s/main.scss"
  | 1 => "/s/_a.scss"

/-- The stylesheets stand apart from the cache, of which nothing is there. -/
theorem apart_pair : Apart pair "/c" pairPaths := by
  have hmaking : ∀ made, pair.makeDirectories (shelf "/c") = .ok made →
      ∀ i, made.readBytes (pairPaths i) = pair.readBytes (pairPaths i) ∧
        made.find (entryPath "/c" (pairPaths i) Transform.tag) =
          pair.find (entryPath "/c" (pairPaths i) Transform.tag) := by
    have hfacts : (pair.makeDirectories (shelf "/c")).toOption.all (fun made =>
        decide (∀ i, made.readBytes (pairPaths i) = pair.readBytes (pairPaths i) ∧
          made.find (entryPath "/c" (pairPaths i) Transform.tag) =
            pair.find (entryPath "/c" (pairPaths i) Transform.tag))) = true := by decide +kernel
    intro made hmade
    rw [hmade] at hfacts
    exact of_decide_eq_true hfacts
  refine ⟨?_, ?_, fun made hmade i => (hmaking made hmade i).1,
    fun made hmade i => (hmaking made hmade i).2⟩
  · have hway : ∀ i, ∀ place ∈ pair.way (pairPaths i), pair.lexical "/c" <+: place →
        place = pair.lexical "/c" := by decide +kernel
    exact fun i => .of_way (hway i)
  · intro i entry hread
    obtain ⟨text, htext⟩ := exists_text_of_readEntry hread
    obtain ⟨bytes, changed, -, hnode, -⟩ := Disk.readText_eq_ok_iff.1 htext
    rw [← entryLocation, node?_pair] at hnode
    cases hnode

/-- The tasks over the two stylesheets are independent. -/
theorem independent_pair : Independent .default cachingProject (begin pair pairPaths) where
  toSeparate := separate_begin wellFormed_pair (by decide +kernel)
  apart _ directory hcache := by
    obtain rfl : "/c" = directory := Option.some.inj hcache
    exact apart_pair

/-- The parts of the two tasks take turns, and the first one ends as it does when it comes last. -/
theorem interleave_eq_inTurn_pair : Independent .default cachingProject (begin pair pairPaths) ∧
    2 ≤ [(0 : Fin 2), 1, 0, 1].count 0 ∧ 0 ∈ [(1 : Fin 2), 0] ∧
    ∃ between inTurn : World (Fin 2), ∃ result,
      between = (begin pair pairPaths).interleave .default cachingProject [0, 1, 0, 1] ∧
      inTurn = (begin pair pairPaths).inTurn .default cachingProject [1, 0] ∧
      (between.tasks 0).stage = .done result ∧ (inTurn.tasks 0).stage = .done result ∧
      (between.tasks 0).sheet = (inTurn.tasks 0).sheet ∧
      between.session.disk.readBytes (entryPath "/c" "/s/main.scss" Transform.tag) =
        inTurn.session.disk.readBytes (entryPath "/c" "/s/main.scss" Transform.tag) := by
  have hschedule : 2 ≤ [(0 : Fin 2), 1, 0, 1].count 0 := by decide
  have horder : 0 ∈ [(1 : Fin 2), 0] := by decide
  obtain ⟨result, hstage, hstage', hsheet, hentry⟩ :=
    interleave_eq_inTurn independent_pair hschedule horder
  exact ⟨independent_pair, hschedule, horder, _, _, result, rfl, rfl, hstage, hstage', hsheet,
    hentry "/c" rfl⟩

/-! ## A source that the cache makes a directory -/

/-- A disk on which one of two sources stands. -/
def lone : Disk where
  nodes := [([], .directory ⟨0⟩), (["b.scss"], .file (Text.Utf8.encode ".b".toList) ⟨0⟩)]
  home := []
  clock := ⟨1⟩

theorem wellFormed_lone : lone.WellFormed :=
  .of_nodes (by decide +kernel) (by decide +kernel) (by decide +kernel)

/-- The two sources. -/
def lonePaths : Fin 2 → String
  | 0 => "/a.scss"
  | 1 => "/b.scss"

/-- A project with the cache below the source that is gone. -/
def loneProject : Project :=
  { Project.rooted "/" none none with usesCache := true, cache := some "/a.scss/c" }

/-- The entry of the source that is there. -/
def loneEntry : Entry := ⟨formatVersion, "/b.scss", Transform.tag, "", none, []⟩

theorem misses_lone {d : Disk} {path : String}
    (h : d.probe (entryPath "/a.scss/c" path Transform.tag) = .ok none) :
    Transform.Misses .default loneProject d path := by
  intro _ directory hcache
  obtain rfl : "/a.scss/c" = directory := Option.some.inj hcache
  exact ⟨[], isValid_of_probe_eq_none h⟩

/-- The pass over the source that is there stores its entry. -/
theorem caches_lone {d : Disk} (h : writeEntry lone "/a.scss/c" loneEntry = .ok d) :
    Transform.Caches .default loneProject ((begin lone lonePaths).pass 1) "/a.scss/c" ".b" none []
      ⟨"", none⟩ d := by
  have htext : lone.readText "/b.scss" = .ok ".b" := by
    have hbytes : lone.readBytes "/b.scss" = .ok (Text.Utf8.encode ".b".toList) := by
      decide +kernel
    rw [Disk.readText, hbytes]
    exact Disk.textOf_encode (by decide)
  have hmakes : Transform.Makes .default loneProject ((begin lone lonePaths).pass 1) ".b" none
      [] := by
    refine ⟨.inr ⟨rfl, htext⟩, by decide, ⟨emptyCompiler, rfl⟩, rfl, ?_⟩
    rw [Transform.searchOf_requestFor rfl]
    refine Dependency.dependencies_of_discovery wellFormed_lone
      (fun hook hhook => by cases hhook) ?_
    rw [Dependency.references, Import.statements, Import.scan_eq_nil_of_not_mem (by decide)]
    exact .done
  exact ⟨rfl, rfl, misses_lone (by decide +kernel), hmakes, ⟨emptyCompiler, rfl, rfl⟩, h⟩

/-- Storing the entry of the one source makes the other one a directory. -/
theorem exists_stored_lone : ∃ d, writeEntry lone "/a.scss/c" loneEntry = .ok d ∧
    d.probe (entryPath "/a.scss/c" "/a.scss" Transform.tag) = .ok none ∧
    d.readText "/a.scss" = .error (.disk (.refused .isDirectory "/a.scss")) := by
  have hfacts : (writeEntry lone "/a.scss/c" loneEntry).toOption.any (fun d =>
      decide (d.probe (entryPath "/a.scss/c" "/a.scss" Transform.tag) = .ok none) &&
      decide (d.readText "/a.scss" = .error (.disk (.refused .isDirectory "/a.scss")))) = true := by
    decide +kernel
  obtain ⟨d, hd, hfacts⟩ := exists_ok_of_any hfacts
  simp only [Bool.and_eq_true, decide_eq_true_eq] at hfacts
  exact ⟨d, hd, hfacts⟩

/-- Tasks over different sources need not end alike in every order, though none of the sources is in
the cache directory: the first entry that is stored makes a source that is gone a directory, which
cannot be read. -/
theorem exists_interference :
    Separate .default loneProject (begin lone lonePaths) ∧
    (∀ i, ¬ lone.lexical "/a.scss/c" <+: lone.lexical (lonePaths i)) ∧
    (((begin lone lonePaths).interleave .default loneProject [0, 0, 1, 1]).tasks 0).stage =
      .done (.ok ()) ∧
    (((begin lone lonePaths).inTurn .default loneProject [1, 0]).tasks 0).stage =
      .done (.error (.disk (.refused .isDirectory "/a.scss"))) := by
  refine ⟨separate_begin wellFormed_lone (by decide +kernel), by decide +kernel, ?_, ?_⟩
  · obtain ⟨pass, hrun, -⟩ : ∃ pass, (transform .default loneProject).run
        ((begin lone lonePaths).pass 0) = (.ok (), pass) ∧ pass.sheet.contents = some "" :=
      Transform.exists_transform_run_of_missing rfl (misses_lone (by decide +kernel))
        (by decide +kernel : lone.readText "/a.scss" = .error (.disk (.refused .missing "/a.scss")))
    have hwhole : (begin lone lonePaths).interleave .default loneProject [0, 0, 1, 1] =
        ((begin lone lonePaths).finish .default loneProject 0).finish .default loneProject 1 :=
      (World.inTurn_eq_interleave (fun _ _ => Stage.noConfusion) [0, 1]).symm
    rw [hwhole, World.tasks_finish_of_ne (by decide), World.finish_of_fresh rfl, hrun,
      World.stage_put_self]
  · obtain ⟨d, hd, hprobe, hread⟩ := exists_stored_lone
    obtain ⟨pass, hrun, hdisk, -⟩ := Transform.exists_transform_run (caches_lone hd)
    let behind : World (Fin 2) := (begin lone lonePaths).put 1 pass (.done (.ok ()))
    have hbehind : (begin lone lonePaths).finish .default loneProject 1 = behind := by
      rw [World.finish_of_fresh rfl, hrun]
    have hown : behind.tasks 0 = (begin lone lonePaths).tasks 0 :=
      World.tasks_put_of_ne (by decide) ..
    obtain ⟨pass', hrun'⟩ : ∃ pass', (transform .default loneProject).run (behind.pass 0) =
        (.error (.disk (.refused .isDirectory "/a.scss")), pass') := by
      have hsheet : (behind.pass 0).sheet = ((begin lone lonePaths).pass 0).sheet :=
        congrArg Task.sheet hown
      have hmiss := misses_lone hprobe
      rw [← hdisk] at hread hmiss
      apply Transform.exists_transform_run_of_refused
      · rw [hsheet]
        rfl
      · rw [hsheet]
        exact hmiss
      · rw [hsheet]
        exact hread
      · exact Disk.Cause.noConfusion
    rw [World.inTurn, List.foldl_cons, List.foldl_cons, List.foldl_nil, hbehind,
      World.finish_of_fresh (congrArg Task.stage hown), hrun', World.stage_put_self]

end StyleBundle.Cache
