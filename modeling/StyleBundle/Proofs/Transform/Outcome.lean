import StyleBundle.Proofs.Transform.Pass

/-!
# What a pass compiles

Of all the ways in which a pass can end, only one leads to the cache: the compiler reports compiled
text. This module names that text and says that every other pass leaves the disk as it is.
-/

namespace StyleBundle.Transform

variable {pass pass' : Pass} {settings : Settings} {p : Project} {directory : String}
  {sheet : Sheet} {output : Output}

/-- The compiled text that a pass gets, with the stylesheet as it is then. There is none if the pass
ends before the compile, and none if the compiler reports anything else. -/
def outputOf (settings : Settings) (p : Project) (pass : Pass) : Option (Sheet × Output) :=
  match (prepare settings p).run pass with
  | (.ok (some request), mid) =>
    match (submit request).run mid with
    | (.ok ⟨none, some output⟩, sent) => some (sent.sheet, output)
    | _ => none
  | _ => none

/-- A pass gets compiled text through a request and a report. -/
theorem outputOf_eq_some_iff : outputOf settings p pass = some (sheet, output) ↔
    ∃ request mid sent, (prepare settings p).run pass = (.ok (some request), mid) ∧
      (submit request).run mid = (.ok ⟨none, some output⟩, sent) ∧ sent.sheet = sheet := by
  constructor
  · intro h
    unfold outputOf at h
    split at h
    next request mid hprepare =>
      split at h
      next reported sent hsubmit =>
        obtain ⟨rfl, rfl⟩ := Prod.mk.inj (Option.some.inj h)
        exact ⟨request, mid, sent, hprepare, hsubmit, rfl⟩
      · cases h
    · cases h
  · rintro ⟨request, mid, sent, hprepare, hsubmit, rfl⟩
    simp only [outputOf, hprepare, hsubmit]

/-- A pass that stores an entry has got compiled text, and knows the dependencies then. -/
theorem Caches.exists_outputOf {text : String} {given : Option String} {found : List String}
    {d' : Disk} (h : Caches settings p pass directory text given found output d') : ∃ sheet,
      outputOf settings p pass = some (sheet, output) ∧ sheet.styleDependencies = some found := by
  obtain ⟨mid, sent, hprepare, hawaits, hsubmit, -⟩ := h.exists_runs
  exact ⟨_, outputOf_eq_some_iff.2 ⟨_, mid, sent, hprepare, hsubmit, rfl⟩,
    (submits_of_run hsubmit).sheet ▸ hawaits.dependencies⟩

/-- A pass that gets compiled text goes on with it on the same disk. -/
theorem exists_run_of_outputOf (h : outputOf settings p pass = some (sheet, output)) : ∃ sent,
    (transform settings p).run pass = (settle settings p ⟨none, some output⟩).run sent ∧
      sent.sheet = sheet ∧ sent.session.disk = pass.session.disk := by
  obtain ⟨request, mid, sent, hprepare, hsubmit, hsheet⟩ := outputOf_eq_some_iff.1 h
  exact ⟨sent, transform_run_eq_iff.2 (.answered hprepare hsubmit rfl), hsheet,
    (submits_of_run hsubmit).disk.trans (disk_of_prepare hprepare)⟩

/-- The stylesheet with compiled text is that of the same source. -/
theorem path_of_outputOf (h : outputOf settings p pass = some (sheet, output)) :
    sheet.path = pass.sheet.path := by
  obtain ⟨request, mid, sent, hprepare, hsubmit, rfl⟩ := outputOf_eq_some_iff.1 h
  obtain ⟨-, text, given, found, -, -, hawaits⟩ := exists_makes_of_prepare hprepare
  rw [(submits_of_run hsubmit).sheet, hawaits.path]

/-- A pass that gets compiled text, uses the cache and succeeds has stored the entry. -/
theorem exists_caches_of_outputOf (hcache : p.cache = some directory)
    (huses : usesCache settings p = true) (h : outputOf settings p pass = some (sheet, output))
    (hrun : (transform settings p).run pass = (.ok (), pass')) : ∃ text given found,
      sheet.styleDependencies = some found ∧
      Caches settings p pass directory text given found output pass'.session.disk := by
  obtain ⟨request, mid, sent, hprepare, hsubmit, rfl⟩ := outputOf_eq_some_iff.1 h
  have hsettle : (settle settings p ⟨none, some output⟩).run sent = (.ok (), pass') :=
    (transform_run_eq_iff.2 (.answered hprepare hsubmit rfl)).symm.trans hrun
  obtain ⟨text, given, found, rfl, hawaits, hcaches⟩ :=
    exists_caches_of_runs hcache huses hprepare hsubmit hsettle
  exact ⟨text, given, found, (submits_of_run hsubmit).sheet ▸ hawaits.dependencies, hcaches⟩

end StyleBundle.Transform
