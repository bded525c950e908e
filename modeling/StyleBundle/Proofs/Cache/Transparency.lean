import StyleBundle.Proofs.Cache.History

/-!
# Two passes over one source

An entry is named by the path of its source and the tag only, so that a pass may be given what
another pass has compiled with other settings. This module compares a second pass with the same pass
on the disk as it was before the first. Where both hand the same request to compilers that answer
every request in one way, they leave the same text and the same map: the second pass takes the entry
of the first, or it makes the same request again, for nothing that it reads has changed.
-/

namespace StyleBundle.Cache

open Transform (Pass Makes Misses Caches requestFor compilerOf prepare transform searchOf usesCache
  resourcesOf outcomeOf leftBy)

variable {settings settings' : Settings} {p p' : Project} {directory path text : String}
  {pass first second : Pass} {d d' : Disk} {location : Location} {given : Option String}
  {found : List String} {output : Output} {outcome : Request → Except Failure Report}

/-- A pass that starts from another disk. -/
def onDisk (pass : Pass) (d : Disk) : Pass :=
  { pass with session := { pass.session with disk := d } }

/-- A pass whose compiler answers a request always in the same way, whatever the disk holds. -/
def AnswersBy (outcome : Request → Except Failure Report) (pass : Pass) : Prop :=
  ∀ compiler, compilerOf pass = .ok compiler → ∀ d request,
    (compiler.render d request).report = outcome request

/-! ## Requests on a disk with a new entry -/

/-- Texts that are read are read later, as long as nothing has stood at the changed location. -/
theorem readTexts_of_evolves (h : Disk.Evolves (· = location) d d')
    (hnone : d.node? location = none) {paths texts : List String}
    (hread : Session.readTexts d paths = .ok texts) :
    Session.readTexts d' paths = .ok texts := by
  induction paths generalizing texts with
  | nil => exact hread
  | cons path rest ih =>
    simp only [Session.readTexts] at hread ⊢
    split at hread
    · cases hread
    next text htext =>
      split at hread
      · cases hread
      next more hmore =>
        rw [(isFile_of_evolves h hnone (isFile_of_readText htext)).2, htext]
        simp only [ih hmore]
        exact hread

/-- A disk on which an entry has come up, where nothing stood before. -/
structure Gains (location : Location) (d d' : Disk) : Prop where
  /-- The disk before. -/
  before : d.WellFormed
  /-- The disk behind. -/
  behind : d'.WellFormed
  /-- Nothing else has changed. -/
  evolves : Disk.Evolves (· = location) d d'
  /-- Nothing stood there. -/
  empty : d.node? location = none
  /-- It is an entry that stands there now. -/
  entry : IsEntryLocation location

/-- The dependencies of a text are the same where an entry has come up. -/
theorem Gains.dependencies (h : Gains location d d') {request : Request}
    (halike : (searchOf request).AnswersAlike d d')
    (hfound : Dependency.dependencies d (searchOf request) path text = .ok found) :
    Dependency.dependencies d' (searchOf request) path text = .ok found := by
  have hkept : ∀ file, d.isFile file = true →
      d'.isFile file = true ∧ d'.readText file = d.readText file :=
    fun _ => isFile_of_evolves h.evolves h.empty
  have honly := onlyEntriesAppear_of_evolves h.evolves (.inl h.entry)
  refine Dependency.dependencies_congr h.before h.behind h.evolves.home halike
    (hasNoMore_of_onlyEntriesAppear h.before h.behind h.evolves.home honly seeksStyles_searchOf)
    (fun hfile => (hkept path hfile).1) hfound ?_
  intro file hmem
  obtain ⟨other, bytes, changed, hnode, hspelling, -⟩ :=
    exists_file_of_mem_dependencies h.before seeksStyles_searchOf hfound hmem
  exact hkept file (Disk.isFile_iff.2
    ⟨other, bytes, changed, h.before.locate_of_mem_spellings hnode hspelling, hnode⟩)

/-- A request is made of the same things where an entry has come up. -/
theorem Gains.makes (h : Gains location d d')
    (halike : (searchOf (requestFor settings p pass.sheet text given)).AnswersAlike d d')
    (hmakes : Makes settings p (onDisk pass d) text given found) :
    Makes settings p (onDisk pass d') text given found where
  loads := by
    rcases hmakes.loads with hloaded | ⟨hfresh, htext⟩
    · exact .inl hloaded
    · have hkept := isFile_of_evolves h.evolves h.empty (isFile_of_readText htext)
      exact .inr ⟨hfresh, hkept.2.trans htext⟩
  nonempty := hmakes.nonempty
  compiler := hmakes.compiler
  resources := by
    have hresources := hmakes.resources
    simp only [resourcesOf, Session.loadResources, onDisk] at hresources ⊢
    split
    next hnone => rwa [if_pos hnone] at hresources
    next hsome =>
      rw [if_neg hsome] at hresources
      cases hloaded : pass.session.resources with
      | some resources => rwa [hloaded] at hresources
      | none =>
        rw [hloaded] at hresources
        cases htexts : Session.readTexts d settings.resources with
        | error failure =>
          simp only [htexts] at hresources
          cases hresources
        | ok texts =>
          simp only [htexts] at hresources
          simp only [readTexts_of_evolves h.evolves h.empty htexts]
          exact hresources
  dependencies := h.dependencies halike hmakes.dependencies

/-! ## The second pass -/

/-- A second pass over the source of a first one, with the same cache and on the disk that the first
one has left. The cache had no entry of the source before. -/
structure Repeats (settings : Settings) (p : Project) (directory : String) (first : Pass)
    (p' : Project) (second : Pass) : Prop where
  /-- The cache of the first pass. -/
  cache : p.cache = some directory
  /-- The cache of the second pass. -/
  cache' : p'.cache = some directory
  /-- The disk of the first pass. -/
  wellFormed : first.session.disk.WellFormed
  /-- There was no entry. -/
  empty : first.session.disk.node?
    (entryLocation first.session.disk directory first.sheet.path) = none
  /-- Nothing but the first pass has changed the disk. -/
  disk : second.session.disk = ((transform settings p).run first).2.session.disk
  /-- The source is the same. -/
  path : second.sheet.path = first.sheet.path
  /-- The source can be looked for. -/
  probe : ∃ found, second.session.disk.probe second.sheet.path = .ok found

/-- An entry comes up where a pass stores one. -/
theorem Gains.of_caches (hd : pass.session.disk.WellFormed)
    (hempty : pass.session.disk.node?
      (entryLocation pass.session.disk directory pass.sheet.path) = none)
    (h : Caches settings p pass directory text given found output d') :
    Gains (entryLocation pass.session.disk directory pass.sheet.path) pass.session.disk d' := by
  obtain ⟨location, stamp, hlexical, -, hevolves, hd', -⟩ := evolves_writeEntry hd h.written
  have hlocation : entryLocation pass.session.disk directory pass.sheet.path = location := hlexical
  refine ⟨hd, hd', ?_, hempty, isEntryLocation_entryLocation ..⟩
  rw [hlocation]
  exact hevolves

namespace Repeats

/-- The first pass leaves the disk as it is, or it stores an entry. -/
theorem disk_or_caches (h : Repeats settings p directory first p' second) :
    second.session.disk = first.session.disk ∨ ∃ text given found output,
      Caches settings p first directory text given found output second.session.disk := by
  obtain ⟨result, pass', hrun⟩ : ∃ result pass',
      (transform settings p).run first = (result, pass') := ⟨_, _, rfl⟩
  rw [h.disk, hrun]
  rcases Transform.disk_or_caches_of_transform hrun with
    hkept | ⟨other, text, given, found, output, hcaches⟩
  · exact .inl hkept
  · obtain rfl := Option.some.inj (h.cache.symm.trans hcaches.cache)
    exact .inr ⟨text, given, found, output, hcaches⟩

/-- The check of the stored entry comes to a result. -/
theorem exists_isValid (h : Repeats settings p directory first p' second)
    (hcaches : Caches settings p first directory text given found output second.session.disk) :
    ∃ valid, isValid second.session.disk directory second.sheet.path Transform.tag =
      .ok (valid, []) := by
  have hprobe := h.probe
  rw [h.path] at hprobe ⊢
  obtain ⟨location, stamp, hlexical, hlocate, hevolves, -, hnode, -⟩ :=
    evolves_writeEntry h.wellFormed hcaches.written
  have hempty : first.session.disk.node? location = none := hlexical ▸ h.empty
  refine exists_isValid_eq_ok (Disk.find_eq_ok_iff.2 ⟨location, hlocate, hnode⟩)
    (readEntry_of_caches h.wellFormed hcaches) hprobe ?_
  intro dependency hmem
  obtain ⟨other, bytes, changed, hfile, hspelling, -⟩ := exists_file_of_mem_dependencies
    h.wellFormed seeksStyles_searchOf hcaches.makes.dependencies hmem
  rw [h.wellFormed.tidy_eq_self hfile hspelling]
  exact ⟨_, hevolves.find_file hempty (Disk.find_eq_ok_iff.2
    ⟨other, h.wellFormed.locate_of_mem_spellings hfile hspelling, hfile⟩)⟩

/-- Where the stored entry may not be used, the second pass misses it. -/
theorem misses_of_ne (h : Repeats settings p directory first p' second)
    (hcaches : Caches settings p first directory text given found output second.session.disk)
    (hinvalid : usesCache settings' p' = true → ∀ records,
      isValid second.session.disk directory second.sheet.path Transform.tag ≠ .ok (true, records)) :
    Misses settings' p' second.session.disk second.sheet.path := by
  intro huses other hother
  obtain rfl := Option.some.inj (h.cache'.symm.trans hother)
  obtain ⟨valid, hvalid⟩ := h.exists_isValid hcaches
  cases valid with
  | true => exact absurd hvalid (hinvalid huses [])
  | false => exact ⟨[], hvalid⟩

end Repeats

/-- A pass that makes a request on the disk without the entry and does not use the entry leaves the
same on both disks: it makes the same request again, and gets the same report. -/
theorem Gains.outcomeOf_eq (h : Gains location d d') {request : Request} {mid : Pass}
    (hprepare : (prepare settings p).run (onDisk pass d) = (.ok (some request), mid))
    (hanswers : AnswersBy outcome pass) (halike : (searchOf request).AnswersAlike d d')
    (hmisses : Misses settings p d' pass.sheet.path) :
    outcomeOf settings p (onDisk pass d') = outcomeOf settings p (onDisk pass d) := by
  obtain ⟨-, text, given, found, hmakes, rfl, hawaits⟩ :=
    Transform.exists_makes_of_prepare hprepare
  have hmakes' : Makes settings p (onDisk pass d') text given found := h.makes halike hmakes
  obtain ⟨mid', hprepare', hawaits'⟩ := Transform.exists_prepare_run hmakes' hmisses
  obtain ⟨compiler, hcompiler⟩ := hmakes.compiler
  have hleft : ∀ report, leftBy mid'.sheet report = leftBy mid.sheet report := by
    intro report
    unfold leftBy
    rw [hawaits'.contents, hawaits'.sourceMap, hawaits.contents, hawaits.sourceMap]
    rfl
  have hcompiler' : compilerOf (onDisk pass d') = .ok compiler := hcompiler
  rw [Transform.outcomeOf_of_prepare hprepare (hawaits.compiler.trans hcompiler),
    Transform.outcomeOf_of_prepare hprepare' (hawaits'.compiler.trans hcompiler'),
    hanswers compiler hcompiler, hanswers compiler hcompiler]
  exact hleft _

/-- A pass that uses an entry leaves what it leaves on the disk without it, if it makes a request
there for which its compiler reports what the entry holds. -/
theorem outcomeOf_eq_of_isValid {request : Request} {mid : Pass} {entry : Entry}
    {records : List LogRecord} (hcache : p.cache = some directory)
    (huses : usesCache settings p = true)
    (hprepare : (prepare settings p).run (onDisk pass d) = (.ok (some request), mid))
    (hanswers : AnswersBy outcome pass)
    (houtcome : outcome request = .ok ⟨none, some ⟨entry.contents, entry.sourceMap⟩⟩)
    (hvalid : isValid pass.session.disk directory pass.sheet.path Transform.tag =
      .ok (true, records))
    (hread : readEntry pass.session.disk directory pass.sheet.path Transform.tag = .ok entry) :
    outcomeOf settings p pass = outcomeOf settings p (onDisk pass d) := by
  obtain ⟨-, text, given, found, hmakes, -, hawaits⟩ := Transform.exists_makes_of_prepare hprepare
  obtain ⟨compiler, hcompiler⟩ := hmakes.compiler
  rw [Transform.outcomeOf_of_isValid hcache huses hvalid hread,
    Transform.outcomeOf_of_prepare hprepare (hawaits.compiler.trans hcompiler),
    hanswers compiler hcompiler, houtcome]
  rfl

/-- Where the first pass has stored nothing, the second one finds the disk as it was. -/
theorem onDisk_eq_self (hkept : second.session.disk = first.session.disk) :
    onDisk second first.session.disk = second := by
  rw [← hkept]
  rfl

namespace Repeats

/-- A second pass that uses the entry leaves what the first pass has left. -/
theorem outcomeOf_eq_first (h : Repeats settings p directory first p' second)
    (huses : usesCache settings' p' = true) {records : List LogRecord}
    (hvalid : isValid second.session.disk directory second.sheet.path Transform.tag =
      .ok (true, records)) :
    outcomeOf settings' p' second = outcomeOf settings p first := by
  rcases h.disk_or_caches with hkept | ⟨text, given, found, output, hcaches⟩
  · -- There is no entry to be used.
    obtain ⟨-, written, _, _, hfind, -⟩ := isValid_eq_true.1 hvalid
    obtain ⟨location, hlocate, hnode⟩ := Disk.find_eq_ok_iff.1 hfind
    rw [Disk.eq_lexical_of_locate hlocate, hkept, h.path] at hnode
    have hempty := h.empty
    rw [entryLocation, hnode] at hempty
    cases hempty
  · have hread := readEntry_of_caches h.wellFormed hcaches
    rw [← h.path] at hread
    obtain ⟨pass', hrun, -, hcontents, hmap⟩ := Transform.exists_transform_run hcaches
    rw [Transform.outcomeOf_of_isValid h.cache' huses hvalid hread, outcomeOf, hrun]
    simp only [hcontents, hmap]

/-- A second pass that makes a request on the disk without the entry and may not use the entry
leaves the same on both disks. -/
theorem outcomeOf_eq_of_ne (h : Repeats settings p directory first p' second)
    (hanswers : AnswersBy outcome second) {request : Request} {mid : Pass}
    (hprepare : (prepare settings' p').run (onDisk second first.session.disk) =
      (.ok (some request), mid))
    (halike : (searchOf request).AnswersAlike first.session.disk second.session.disk)
    (hinvalid : usesCache settings' p' = true → ∀ records,
      isValid second.session.disk directory second.sheet.path Transform.tag ≠ .ok (true, records)) :
    outcomeOf settings' p' second = outcomeOf settings' p' (onDisk second first.session.disk) := by
  rcases h.disk_or_caches with hkept | ⟨text, given, found, output, hcaches⟩
  · rw [onDisk_eq_self hkept]
  · exact (Gains.of_caches h.wellFormed h.empty hcaches).outcomeOf_eq hprepare hanswers halike
      (h.misses_of_ne hcaches hinvalid)

/-- A second pass that makes the request of the first one on the disk without the entry leaves the
same on both disks: if it uses the entry, its compiler would have reported what the entry holds. -/
theorem outcomeOf_eq_of_prepare (h : Repeats settings p directory first p' second)
    (hanswers : AnswersBy outcome first) (hanswers' : AnswersBy outcome second)
    (halike : ∀ request mid, (prepare settings' p').run (onDisk second first.session.disk) =
      (.ok (some request), mid) →
        (searchOf request).AnswersAlike first.session.disk second.session.disk)
    (hsame : ∀ request mid, (prepare settings p).run first = (.ok (some request), mid) →
      ∃ mid', (prepare settings' p').run (onDisk second first.session.disk) =
        (.ok (some request), mid')) :
    outcomeOf settings' p' second = outcomeOf settings' p' (onDisk second first.session.disk) := by
  rcases h.disk_or_caches with hkept | ⟨text, given, found, output, hcaches⟩
  · rw [onDisk_eq_self hkept]
  · obtain ⟨mid, sent, hprepare, -, -, -⟩ := hcaches.exists_runs
    obtain ⟨mid', hprepare'⟩ := hsame _ _ hprepare
    by_cases hused : usesCache settings' p' = true ∧ ∃ records,
        isValid second.session.disk directory second.sheet.path Transform.tag = .ok (true, records)
    · -- The entry holds what the first compiler has reported for the same request.
      obtain ⟨huses, records, hvalid⟩ := hused
      obtain ⟨compiler, hcompiler, hreport⟩ := hcaches.compiles
      rw [hanswers compiler hcompiler] at hreport
      have hread := readEntry_of_caches h.wellFormed hcaches
      rw [← h.path] at hread
      exact outcomeOf_eq_of_isValid h.cache' huses hprepare' hanswers' hreport hvalid hread
    · exact h.outcomeOf_eq_of_ne hanswers' hprepare' (halike _ _ hprepare')
        fun huses records hvalid => hused ⟨huses, records, hvalid⟩

end Repeats

/-- What a second pass over a source leaves, whatever settings and text the two have. If it uses the
entry of the first one, it leaves what that one has left. If it may not use the entry and makes a
request on the disk without it, it leaves the same text and the same map as on that disk. And if it
makes the same request there as the first one has made, it leaves the same text and the same map as
there, also if it uses the entry. -/
theorem transform_transparent (h : Repeats settings p directory first p' second)
    (hanswers : AnswersBy outcome first) (hanswers' : AnswersBy outcome second)
    (halike : ∀ request mid, (prepare settings' p').run (onDisk second first.session.disk) =
      (.ok (some request), mid) →
        (searchOf request).AnswersAlike first.session.disk second.session.disk) :
    (usesCache settings' p' = true → ∀ records,
        isValid second.session.disk directory second.sheet.path Transform.tag =
          .ok (true, records) →
        outcomeOf settings' p' second = outcomeOf settings p first) ∧
      ((∀ records, isValid second.session.disk directory second.sheet.path Transform.tag ≠
          .ok (true, records)) →
        (∃ request mid, (prepare settings' p').run (onDisk second first.session.disk) =
          (.ok (some request), mid)) →
        outcomeOf settings' p' second =
          outcomeOf settings' p' (onDisk second first.session.disk)) ∧
      ((∀ request mid, (prepare settings p).run first = (.ok (some request), mid) →
          ∃ mid', (prepare settings' p').run (onDisk second first.session.disk) =
            (.ok (some request), mid')) →
        outcomeOf settings' p' second =
          outcomeOf settings' p' (onDisk second first.session.disk)) := by
  refine ⟨?_, ?_, ?_⟩
  · intro huses records hvalid
    exact h.outcomeOf_eq_first huses hvalid
  · rintro hinvalid ⟨request, mid, hprepare⟩
    exact h.outcomeOf_eq_of_ne hanswers' hprepare (halike request mid hprepare) fun _ => hinvalid
  · intro hsame
    exact h.outcomeOf_eq_of_prepare hanswers hanswers' halike hsame

/-! ## A compiler that gives back what it gets -/

/-- What the compiler makes of a request: its text, without a map. -/
def echo (request : Request) : Except Failure Report := .ok ⟨none, some ⟨request.data, none⟩⟩

/-- A compiler that gives back the text of every request. -/
def echoCompiler : Compiler := .fresh (.host fun _ _ request => ⟨none, (echo request).map (·, [])⟩)

/-- A pass over the stylesheet with that compiler. -/
def echoPass : Pass := { firstPass with own := some echoCompiler }

/-- The entry of the stylesheet as it is given back. -/
def echoEntry : Entry :=
  ⟨formatVersion, "/s/main.scss", Transform.tag, "@import 'a';", none, ["/s/_a.scss"]⟩

/-- Settings that may hold a text to be compiled instead. -/
def replacing (data : Option String) : Settings := { Settings.default with data }

theorem answersBy_echo {d : Disk} : AnswersBy echo (onDisk echoPass d) := by
  intro compiler hcompiler d request
  obtain rfl := Except.ok.inj hcompiler
  rfl

theorem makes_echo (data : Option String) : Makes (replacing data) cachingProject echoPass
    "@import 'a';" none ["/s/_a.scss"] := by
  refine ⟨.inr ⟨rfl, readText_pair⟩, by decide, ⟨echoCompiler, rfl⟩, rfl, ?_⟩
  rw [Transform.searchOf_requestFor rfl]
  exact dependencies_pair

/-- On the disk without the entry, the text that the settings hold is given back, or else that of
the stylesheet. -/
theorem outcomeOf_echo (data : Option String) :
    outcomeOf (replacing data) cachingProject echoPass =
      (some (data.getD "@import 'a';"), none) := by
  obtain ⟨mid, hprepare, hawaits⟩ :=
    Transform.exists_prepare_run (makes_echo data) (misses_pair (replacing data))
  have hdata : (requestFor (replacing data) cachingProject echoPass.sheet "@import 'a';"
      none).data = data.getD "@import 'a';" := by
    rw [Transform.data_requestFor]
    rfl
  have hcompiler : compilerOf mid = .ok echoCompiler := hawaits.compiler
  rw [Transform.outcomeOf_of_prepare hprepare hcompiler, ← hdata]
  rfl

/-- The first pass stores the stylesheet as it is, and the entry may be used. -/
theorem exists_echoPass_run : ∃ pass',
    (transform (replacing none) cachingProject).run echoPass = (.ok (), pass') ∧
    readEntry pass'.session.disk "/c" "/s/main.scss" Transform.tag = .ok echoEntry ∧
    isValid pass'.session.disk "/c" "/s/main.scss" Transform.tag = .ok (true, []) := by
  obtain ⟨d, hwritten⟩ : ∃ d, writeEntry pair "/c" echoEntry = .ok d :=
    exists_writeEntry_eq_ok (by decide +kernel)
  have hdata : (requestFor (replacing none) cachingProject echoPass.sheet "@import 'a';"
      none).data = "@import 'a';" := by
    rw [Transform.data_requestFor]
    rfl
  have hcaches : Caches (replacing none) cachingProject echoPass "/c" "@import 'a';" none
      ["/s/_a.scss"] ⟨"@import 'a';", none⟩ d :=
    ⟨rfl, rfl, misses_pair (replacing none), makes_echo none,
      ⟨echoCompiler, rfl, by rw [← hdata]; rfl⟩, hwritten⟩
  obtain ⟨pass', hrun, rfl, -⟩ := Transform.exists_transform_run hcaches
  have hstores : Transform.Stores .default "/c" pair echoEntry pass'.session.disk :=
    ⟨⟨_, readText_pair, dependencies_pair⟩, rfl, rfl, hwritten⟩
  have hread : readEntry pass'.session.disk "/c" echoEntry.path echoEntry.tag = .ok echoEntry :=
    readEntry_of_writeEntry wellFormed_pair echoEntry rfl hwritten
  exact ⟨pass', hrun, hread, isValid_of_stores_pair rfl hstores⟩

/-- A second pass with the same settings takes the entry of the first and leaves what it would leave
without it. -/
theorem transform_transparent_echo : ∃ pass',
    (transform (replacing none) cachingProject).run echoPass = (.ok (), pass') ∧
    isValid pass'.session.disk "/c" "/s/main.scss" Transform.tag = .ok (true, []) ∧
    outcomeOf (replacing none) cachingProject (onDisk echoPass pass'.session.disk) =
      outcomeOf (replacing none) cachingProject echoPass := by
  obtain ⟨pass', hrun, -, hvalid⟩ := exists_echoPass_run
  obtain ⟨-, _, changed, _, -, hsource, -⟩ := isValid_eq_true.1 hvalid
  have hunhooked : ∀ request mid, (prepare (replacing none) cachingProject).run echoPass =
      (.ok (some request), mid) →
      (searchOf request).AnswersAlike pair pass'.session.disk := by
    intro request mid hprepare
    obtain ⟨-, text, given, found, -, rfl, -⟩ := Transform.exists_makes_of_prepare hprepare
    rw [Transform.searchOf_requestFor rfl]
    exact .of_none rfl
  have hrepeats : Repeats (replacing none) cachingProject "/c" echoPass cachingProject
      (onDisk echoPass pass'.session.disk) :=
    ⟨rfl, rfl, wellFormed_pair, node?_pair "/s/main.scss", by rw [hrun]; rfl, rfl,
      some changed, probe_eq_ok_some.2 hsource⟩
  obtain ⟨-, -, htransparent⟩ :=
    transform_transparent hrepeats (answersBy_echo (d := pair)) answersBy_echo hunhooked
  exact ⟨pass', hrun, hvalid, htransparent fun request mid hprepare => ⟨mid, hprepare⟩⟩

/-- A second pass with other settings may leave what the first has compiled: it takes the entry
though the settings hold another text. -/
theorem exists_opaque_entry : ∃ pass',
    (transform (replacing none) cachingProject).run echoPass = (.ok (), pass') ∧
    pair.node? (entryLocation pair "/c" "/s/main.scss") = none ∧
    AnswersBy echo echoPass ∧ AnswersBy echo (onDisk echoPass pass'.session.disk) ∧
    outcomeOf (replacing (some ".b")) cachingProject (onDisk echoPass pass'.session.disk) =
      (some "@import 'a';", none) ∧
    outcomeOf (replacing (some ".b")) cachingProject (onDisk echoPass pair) =
      (some ".b", none) := by
  obtain ⟨pass', hrun, hread, hvalid⟩ := exists_echoPass_run
  have hcache : cachingProject.cache = some "/c" := rfl
  have huses : usesCache (replacing (some ".b")) cachingProject = true := rfl
  have hheld : isValid (onDisk echoPass pass'.session.disk).session.disk "/c"
      (onDisk echoPass pass'.session.disk).sheet.path Transform.tag = .ok (true, []) := hvalid
  have htaken := Transform.outcomeOf_of_isValid hcache huses hheld hread
  exact ⟨pass', hrun, node?_pair "/s/main.scss", answersBy_echo (d := pair), answersBy_echo,
    htaken, outcomeOf_echo (some ".b")⟩

end StyleBundle.Cache
