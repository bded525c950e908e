import StyleBundle.Proofs.Cache.History
import StyleBundle.Proofs.Transform.Outcome

/-!
# Entries that are used again

What a pass has stored is what a later pass over the same source takes, as long as the entry is
newer than the source and no recorded dependency is newer than the entry. The later pass then ends
before it makes a request: it does not look for dependencies and asks no compiler.
-/

namespace StyleBundle.Cache

open Transform (Pass Caches prepare transform usesCache outputOf entryFor)

variable {settings settings' : Settings} {p p' : Project} {directory text : String}
  {pass pass' second : Pass} {sheet : Sheet} {output : Output} {given : Option String}
  {found : List String} {d' : Disk} {written changed : Node}

/-- The dependencies that a pass records are still there, at the paths that are recorded, when the
entry is stored. -/
theorem exists_find_of_caches (hd : pass.session.disk.WellFormed)
    (h : Caches settings p pass directory text given found output d') {dependency : String}
    (hmem : dependency ∈ found) : Path.tidy dependency = dependency ∧
      ∃ bytes changed, pass.session.disk.find dependency = .ok (.file bytes changed) ∧
        d'.find dependency = .ok (.file bytes changed) := by
  obtain ⟨location, stamp, hlexical, -, hwriting, -⟩ := evolves_writeEntry hd h.written
  obtain ⟨other, bytes, changed, hnode, hspelling, hentry⟩ :=
    exists_file_of_mem_dependencies hd seeksStyles_searchOf h.makes.dependencies hmem
  have hlocate := hd.locate_of_mem_spellings hnode hspelling
  have hfind := Disk.find_eq_ok_iff.2 ⟨other, hlocate, hnode⟩
  refine ⟨hd.tidy_eq_self hnode hspelling, bytes, changed, hfind,
    hwriting.find_file_of_ne ?_ hfind⟩
  rintro heq
  rw [Disk.eq_lexical_of_locate hlocate, heq, ← hlexical] at hentry
  exact hentry (isEntryLocation_lexical ..)

/-- A stored entry may be used if it is newer than its source and no recorded dependency is newer
than it. -/
theorem isValid_of_caches (hd : pass.session.disk.WellFormed)
    (h : Caches settings p pass directory text given found output d')
    (hwritten : d'.find (entryPath directory pass.sheet.path Transform.tag) = .ok written)
    (hsource : d'.find pass.sheet.path = .ok changed)
    (hnewer : changed.stamp.units < written.stamp.units)
    (hdependencies : ∀ dependency ∈ found, ∀ node, d'.find dependency = .ok node →
      node.stamp.units ≤ written.stamp.units) :
    isValid d' directory pass.sheet.path Transform.tag = .ok (true, []) := by
  refine (isValid_iff_of_readEntry hwritten (readEntry_of_caches hd h)).2
    ⟨rfl, ⟨changed, hsource, hnewer⟩, ?_⟩
  intro dependency hmem
  obtain ⟨htidy, bytes, stamp, -, hfind⟩ := exists_find_of_caches hd h hmem
  rw [htidy]
  exact ⟨_, hfind, hdependencies dependency hmem _ hfind⟩

/-- A pass that has compiled its stylesheet and stored the entry makes the next pass over the source
take it, whatever settings, stylesheet and compiler that one has: if the entry is newer than the
source, no recorded dependency is newer than the entry, and all of them are found as they were, the
next pass makes no request, leaves the compiled text and its map, and changes nothing but the
stylesheet and the log. -/
theorem transform_of_stored (hcache : p.cache = some directory)
    (huses : usesCache settings p = true) (hd : pass.session.disk.WellFormed)
    (houtput : outputOf settings p pass = some (sheet, output))
    (hrun : (transform settings p).run pass = (.ok (), pass'))
    (hwritten : pass'.session.disk.find
      (entryPath directory pass.sheet.path Transform.tag) = .ok written)
    (hsource : pass'.session.disk.find pass.sheet.path = .ok changed)
    (hnewer : changed.stamp.units < written.stamp.units)
    (hdependencies : ∀ dependency ∈ sheet.styleDependencies.getD [], ∀ node,
      pass'.session.disk.find dependency = .ok node → node.stamp.units ≤ written.stamp.units)
    (hcache' : p'.cache = some directory) (huses' : usesCache settings' p' = true)
    (hpath : second.sheet.path = pass.sheet.path)
    (hkept : ∀ file ∈ entryPath directory pass.sheet.path Transform.tag :: pass.sheet.path ::
        sheet.styleDependencies.getD [],
      second.session.disk.find file = pass'.session.disk.find file) :
    readEntry pass'.session.disk directory pass.sheet.path Transform.tag =
        .ok (entryFor sheet output) ∧
      ∃ second', (prepare settings' p').run second = (.ok none, second') ∧
        (transform settings' p').run second = (.ok (), second') ∧
        second'.session = second.session ∧ second'.own = second.own ∧
        second'.sheet.cached = true ∧ second'.sheet.contents = some output.css ∧
        second'.sheet.sourceMap = output.map ∧
        second'.sheet.styleDependencies = second.sheet.styleDependencies := by
  obtain ⟨text, given, found, hfound, hcaches⟩ :=
    Transform.exists_caches_of_outputOf hcache huses houtput hrun
  rw [hfound, Option.getD_some] at hdependencies hkept
  have hread := readEntry_of_caches hd hcaches
  have hvalid := isValid_of_caches hd hcaches hwritten hsource hnewer hdependencies
  have hstays : ∀ file ∈ entryPath directory pass.sheet.path Transform.tag :: pass.sheet.path ::
      found.map Path.tidy, ∀ node, pass'.session.disk.find file = .ok node →
        second.session.disk.find file = .ok node := by
    intro file hfile node hnode
    rw [hkept file ?_, hnode]
    simp only [List.mem_cons, List.mem_map] at hfile ⊢
    rcases hfile with hfile | hfile | ⟨dependency, hmem, rfl⟩
    · exact .inl hfile
    · exact .inr (.inl hfile)
    · rw [(exists_find_of_caches hd hcaches hmem).1]
      exact .inr (.inr hmem)
  obtain ⟨hread', hvalid'⟩ := isValid_of_find_kept hvalid hread hstays
  rw [← hpath] at hread' hvalid'
  obtain ⟨modules, records, hprepare⟩ :=
    Transform.exists_prepare_run_of_isValid hcache' huses' hvalid' hread'
  refine ⟨?_, _, hprepare, ?_, rfl, rfl, rfl, rfl, rfl, rfl⟩
  · rw [hread, entryFor, Transform.path_of_outputOf houtput, hfound, Option.getD_some]
  · exact Transform.transform_run_eq_iff.2 (.unasked hprepare)

/-- A second pass over the stylesheet takes the entry of the first pass. -/
theorem transform_of_stored_pair : ∃ pass' sheet written changed second',
    (transform .default cachingProject).run firstPass = (.ok (), pass') ∧
    outputOf .default cachingProject firstPass = some (sheet, ⟨"", none⟩) ∧
    pass'.session.disk.find (entryPath "/c" "/s/main.scss" Transform.tag) = .ok written ∧
    pass'.session.disk.find "/s/main.scss" = .ok changed ∧
    changed.stamp.units < written.stamp.units ∧
    (transform .default cachingProject).run { pass' with sheet := firstPass.sheet } =
      (.ok (), second') ∧
    second'.session = pass'.session ∧ second'.sheet.cached = true := by
  obtain ⟨d, hstored⟩ := exists_writeEntry_pair
  have hcaches := caches_firstPass hstored
  obtain ⟨pass', hrun, rfl, hstores⟩ := exists_firstPass_run hstored
  obtain ⟨sheet, houtput, hfound⟩ := hcaches.exists_outputOf
  have hread : readEntry pass'.session.disk "/c" pairEntry.path pairEntry.tag = .ok pairEntry :=
    readEntry_of_writeEntry wellFormed_pair pairEntry rfl hstored
  obtain ⟨-, written, changed, entry, hwritten, hsource, hnewer, hread', hchecked⟩ :=
    isValid_eq_true.1 (isValid_of_stores_pair rfl hstores)
  obtain rfl := Except.ok.inj (hread.symm.trans hread')
  have hdependencies : ∀ dependency ∈ sheet.styleDependencies.getD [], ∀ node,
      pass'.session.disk.find dependency = .ok node → node.stamp.units ≤ written.stamp.units := by
    rw [hfound]
    intro dependency hmem node hnode
    obtain ⟨other, hother, hstamp⟩ := hchecked dependency hmem
    rw [(exists_find_of_caches wellFormed_pair hcaches hmem).1, hnode] at hother
    obtain rfl := Except.ok.inj hother
    exact hstamp
  have hcache : cachingProject.cache = some "/c" := rfl
  have huses : usesCache .default cachingProject = true := rfl
  let second : Pass := { pass' with sheet := firstPass.sheet }
  have hkept : ∀ file ∈ entryPath "/c" firstPass.sheet.path Transform.tag ::
      firstPass.sheet.path :: sheet.styleDependencies.getD [],
      second.session.disk.find file = pass'.session.disk.find file := fun _ _ => rfl
  have hsame : second.sheet.path = firstPass.sheet.path := rfl
  obtain ⟨-, second', -, hsecond, hsession, -, hcached, -⟩ :=
    transform_of_stored hcache huses wellFormed_pair houtput hrun hwritten hsource hnewer
      hdependencies hcache huses hsame hkept
  exact ⟨pass', sheet, written, changed, second', hrun, houtput, hwritten, hsource, hnewer,
    hsecond, hsession, hcached⟩

end StyleBundle.Cache
