import StyleBundle.Proofs.Cache.History

/-!
# Files written while a pass waits

A pass reads the source and its dependencies, waits for the compiler, and then stores the entry,
which is stamped with the time of the store. The check compares stamps. A file that is written anew
while the pass waits is older than the entry, so that the entry may be used although it was made
from the text before. Only a stamp behind that of the entry makes the check notice.
-/

namespace StyleBundle.Cache

open Transform (Pass prepare settle searchOf usesCache)

variable {settings : Settings} {p : Project} {directory file : String} {request : Request}
  {output : Output} {pass mid late pass' : Pass} {bytes : List UInt8} {edited now : Stamp}
  {d d' : Disk} {found : List String} {path : String}

/-- A pass that waits for its compiler while a file is written anew at some time, and that goes on
at some other. Which of the two disks the compiler has looked at does not matter. -/
structure Interrupted (settings : Settings) (p : Project) (pass mid late pass' : Pass)
    (request : Request) (output : Output) (file : String) (bytes : List UInt8) (edited now : Stamp)
    (d' : Disk) : Prop where
  /-- The first part makes a request. -/
  prepared : (prepare settings p).run pass = (.ok (some request), mid)
  /-- The file is written anew. -/
  overwritten : { mid.session.disk with clock := edited }.writeBytes file bytes = .ok d'
  /-- The stylesheet is what the first part has left. -/
  sheet : late.sheet = mid.sheet
  /-- The disk is what the host has left. -/
  disk : late.session.disk = { d' with clock := now }
  /-- The second part settles the compiled text. -/
  settled : (settle settings p ⟨none, some output⟩).run late = (.ok (), pass')

/-- What a search has found is still a file where another one, or one of them, is written anew, and
no entry stands there. -/
theorem exists_find_of_mem_dependencies (hd : d.WellFormed) {s : Dependency.Search}
    (hs : SeeksStyles s) {text : String}
    (h : Dependency.dependencies d s path text = .ok found)
    (hwrite : { d with clock := edited }.writeBytes file bytes = .ok d') {dependency : String}
    (hmem : dependency ∈ found) : Path.tidy dependency = dependency ∧
      (∃ bytes changed, d'.find dependency = .ok (.file bytes changed)) ∧
      ¬ IsEntryLocation (d'.lexical dependency) := by
  obtain ⟨location, -, hwriting, hd', hnode', -⟩ := (hd.withClock edited).writeBytes hwrite
  obtain ⟨other, old, changed, hnode, hspelling, hentry⟩ :=
    exists_file_of_mem_dependencies hd hs h hmem
  obtain ⟨now, changed', hfile⟩ : ∃ bytes changed, d'.node? other = some (.file bytes changed) := by
    by_cases hother : other = location
    · exact ⟨bytes, edited, hother ▸ hnode'⟩
    · exact ⟨old, changed, (hwriting.files other hother old changed).2 hnode⟩
  have hlocate := hd'.locate_of_mem_spellings hfile hspelling
  refine ⟨hd.tidy_eq_self hnode hspelling, ⟨now, changed', Disk.find_eq_ok_iff.2
    ⟨other, hlocate, hfile⟩⟩, ?_⟩
  rwa [← Disk.eq_lexical_of_locate hlocate]

/-- The file that is written anew is found with its bytes and its time. -/
theorem find_of_writeBytes (hd : d.WellFormed)
    (hwrite : { d with clock := edited }.writeBytes file bytes = .ok d') :
    d'.find file = .ok (.file bytes edited) := by
  obtain ⟨location, hlocate, hwriting, -, hnode, -⟩ := (hd.withClock edited).writeBytes hwrite
  exact Disk.find_eq_ok_iff.2 ⟨location, hwriting.locate hlocate, hnode⟩

/-- What an interrupted pass leaves: the entry of the text that it has read and of the dependencies
that this text had on the disk before the file was written anew. -/
structure Leaves (pass mid : Pass) (request : Request) (output : Output) (directory : String)
    (d after : Disk) (text : String) (found : List String) (written : Stamp) : Prop where
  /-- The text that was read. -/
  contents : mid.sheet.contents = some text
  /-- The dependencies that are known then. -/
  known : mid.sheet.styleDependencies = some found
  /-- The text had these dependencies. -/
  dependencies : Dependency.dependencies pass.session.disk (searchOf request) pass.sheet.path text =
    .ok found
  /-- The entry is read back. -/
  read : readEntry after directory pass.sheet.path Transform.tag =
    .ok ⟨formatVersion, pass.sheet.path, Transform.tag, output.css, output.map, found⟩
  /-- The entry is stamped when it is written. -/
  stamp : ∃ content, after.find (entryPath directory pass.sheet.path Transform.tag) =
    .ok (.file content written)
  /-- The entry is not written before the pass goes on. -/
  later : d.clock.units ≤ written.units
  /-- Nothing but the entry has changed since. -/
  evolves : Disk.Evolves (· = entryLocation d directory pass.sheet.path) d after

/-- An interrupted pass stores its entry on the disk that the host has left. -/
theorem Interrupted.exists_leaves (hcache : p.cache = some directory)
    (huses : usesCache settings p = true) (hdisk : pass.session.disk.WellFormed)
    (h : Interrupted settings p pass mid late pass' request output file bytes edited now d') :
    mid.session.disk = pass.session.disk ∧ ∃ text found written,
      Leaves pass mid request output directory { d' with clock := now } pass'.session.disk text
        found written := by
  obtain ⟨-, text, given, found, hmakes, rfl, hawaits⟩ :=
    Transform.exists_makes_of_prepare h.prepared
  have hwritten := Transform.writeEntry_of_settle hcache huses h.settled
  rw [Transform.entryFor, h.sheet, h.disk, hawaits.path, hawaits.dependencies,
    Option.getD_some] at hwritten
  have hoverwritten := h.overwritten
  rw [hawaits.disk] at hoverwritten
  obtain ⟨-, -, -, hd', -, -⟩ := (hdisk.withClock edited).writeBytes hoverwritten
  have hresumed := hd'.withClock now
  obtain ⟨location, written, hlexical, hlocate, hwriting, -, hnode, hlater, -⟩ :=
    evolves_writeEntry hresumed hwritten
  have hread := readEntry_of_writeEntry hresumed _ rfl hwritten
  have hfind := Disk.find_eq_ok_iff.2 ⟨location, hlocate, hnode⟩
  refine ⟨hawaits.disk, text, found, written, hawaits.contents, hawaits.dependencies,
    hmakes.dependencies, hread, ⟨_, hfind⟩, hlater, ?_⟩
  rw [entryLocation, hlexical]
  exact hwriting

namespace Leaves

variable {text : String} {written : Stamp} {after : Disk}

/-- What is found at the path of the source behind the store is the entry, or it was there before.
-/
theorem find_source (h : Leaves pass mid request output directory d after text found written)
    {content : List UInt8} {changed : Stamp} (hfind : d.find pass.sheet.path =
      .ok (.file content changed)) :
    after.find pass.sheet.path = .ok (.file content changed) ∨
      ∃ node, after.find pass.sheet.path = .ok node ∧ node.stamp = written := by
  by_cases hne : d.lexical pass.sheet.path = entryLocation d directory pass.sheet.path
  · right
    obtain ⟨entry, hentry⟩ := h.stamp
    obtain ⟨location, hlocate, hnode⟩ := Disk.find_eq_ok_iff.1 hentry
    obtain ⟨source, hsource, -⟩ := Disk.find_eq_ok_iff.1 hfind
    have hsame : source = location := by
      rw [Disk.eq_lexical_of_locate hsource, hne, entryLocation,
        ← Disk.lexical_congr h.evolves.home, ← Disk.eq_lexical_of_locate hlocate]
    exact ⟨_, Disk.find_eq_ok_iff.2 ⟨location, hsame ▸ h.evolves.locate hsource, hnode⟩, rfl⟩
  · exact .inl (h.evolves.find_file_of_ne hne hfind)

/-- What stands at the path of a found dependency is a file on both disks, the same one. -/
theorem find_dependency (h : Leaves pass mid request output directory { d' with clock := now } after
      text found written) (hdisk : pass.session.disk.WellFormed)
    (hwrite : { pass.session.disk with clock := edited }.writeBytes file bytes = .ok d')
    {dependency : String} (hmem : dependency ∈ found) : Path.tidy dependency = dependency ∧
      ∃ content changed, d'.find dependency = .ok (.file content changed) ∧
        after.find dependency = .ok (.file content changed) := by
  obtain ⟨htidy, ⟨content, changed, hfind⟩, hentry⟩ := exists_find_of_mem_dependencies hdisk
    seeksStyles_searchOf h.dependencies hwrite hmem
  refine ⟨htidy, content, changed, hfind, h.evolves.find_file_of_ne ?_
    ((Disk.find_clock d' now dependency).trans hfind)⟩
  intro heq
  have hlexical : d'.lexical dependency = entryLocation { d' with clock := now } directory
      pass.sheet.path := heq
  rw [hlexical] at hentry
  exact hentry (isEntryLocation_entryLocation _ directory pass.sheet.path)

/-- The source and the found dependencies are files on both disks, the same ones, where the source
is a file other than the entry. -/
theorem find_kept (h : Leaves pass mid request output directory { d' with clock := now } after
      text found written) (hdisk : pass.session.disk.WellFormed)
    (hwrite : { pass.session.disk with clock := edited }.writeBytes file bytes = .ok d')
    (hsource : d'.isFile pass.sheet.path = true)
    (hother : d'.lexical pass.sheet.path ≠ entryLocation d' directory pass.sheet.path) :
    ∀ other ∈ pass.sheet.path :: found, ∃ content changed,
      d'.find other = .ok (.file content changed) ∧
        after.find other = .ok (.file content changed) := by
  refine List.forall_mem_cons.2 ⟨?_, ?_⟩
  · obtain ⟨location, content, changed, hlocate, hnode⟩ := Disk.isFile_iff.1 hsource
    have hfind := Disk.find_eq_ok_iff.2 ⟨location, hlocate, hnode⟩
    exact ⟨content, changed, hfind,
      h.evolves.find_file_of_ne hother ((Disk.find_clock d' now _).trans hfind)⟩
  · intro dependency hmem
    obtain ⟨-, content, changed, hfind, hafter⟩ := h.find_dependency hdisk hwrite hmem
    exact ⟨content, changed, hfind, hafter⟩

/-- A file that is written anew behind the store makes the entry useless. -/
theorem isValid_ne_of_written_lt (h : Leaves pass mid request output directory
      { d' with clock := now } after text found written) (hdisk : pass.session.disk.WellFormed)
    (hwrite : { pass.session.disk with clock := edited }.writeBytes file bytes = .ok d')
    (hfile : file ∈ pass.sheet.path :: found) (hlate : written.units < edited.units)
    (records : List LogRecord) :
    isValid after directory pass.sheet.path Transform.tag ≠ .ok (true, records) := by
  intro hvalid
  obtain ⟨content, hstamp⟩ := h.stamp
  obtain ⟨-, ⟨changed, hsource, hless⟩, hdependencies⟩ :=
    (isValid_iff_of_readEntry hstamp h.read).1 hvalid
  have hwritten := find_of_writeBytes hdisk hwrite
  rcases List.mem_cons.1 hfile with rfl | hmem
  · rcases h.find_source ((Disk.find_clock d' now _).trans hwritten) with hkept | ⟨node, hnode,
      hsame⟩
    · obtain rfl := Except.ok.inj (hsource.symm.trans hkept)
      have hearly : edited.units < written.units := hless
      omega
    · -- The entry stands in the place of the source, and is not newer than itself.
      obtain rfl := Except.ok.inj (hsource.symm.trans hnode)
      rw [hsame] at hless
      exact Nat.lt_irrefl _ hless
  · obtain ⟨htidy, content', changed', hfind, hafter⟩ := h.find_dependency hdisk hwrite hmem
    obtain ⟨node, hnode, hnotLater⟩ := hdependencies file hmem
    rw [htidy, hafter] at hnode
    obtain rfl := Except.ok.inj hnode
    obtain ⟨-, hchanged⟩ := Node.file.inj (Except.ok.inj (hfind.symm.trans hwritten))
    have hearly : changed'.units ≤ written.units := hnotLater
    rw [hchanged] at hearly
    omega

/-- An entry may be used that is stored when its source and its dependencies are older than the
store, whenever they were written. -/
theorem isValid_of_lt_written (h : Leaves pass mid request output directory
      { d' with clock := now } after text found written) (hdisk : pass.session.disk.WellFormed)
    (hwrite : { pass.session.disk with clock := edited }.writeBytes file bytes = .ok d')
    (hfile : file ∈ pass.sheet.path :: found)
    (hearly : ∀ other ∈ pass.sheet.path :: found, ∀ node, d'.find other = .ok node →
      node.stamp.units < written.units)
    (hsource : d'.isFile pass.sheet.path = true)
    (hother : d'.lexical pass.sheet.path ≠ entryLocation d' directory pass.sheet.path) :
    after.readBytes file = .ok bytes ∧
      isValid after directory pass.sheet.path Transform.tag = .ok (true, []) := by
  obtain ⟨content, hstamp⟩ := h.stamp
  have hkept := h.find_kept hdisk hwrite hsource hother
  have holder : ∀ other ∈ pass.sheet.path :: found, ∃ node, after.find other = .ok node ∧
      node.stamp.units < written.units := by
    intro other hmem
    obtain ⟨content, changed, hfind, hafter⟩ := hkept other hmem
    exact ⟨_, hafter, hearly other hmem _ hfind⟩
  constructor
  · obtain ⟨content, changed, hfind, hafter⟩ := hkept file hfile
    obtain ⟨rfl, rfl⟩ := Node.file.inj
      (Except.ok.inj (hfind.symm.trans (find_of_writeBytes hdisk hwrite)))
    simp only [Disk.readBytes, hafter]
  · refine (isValid_iff_of_readEntry hstamp h.read).2 ⟨rfl, ?_, ?_⟩
    · exact holder pass.sheet.path (List.mem_cons_self ..)
    · intro dependency hmem
      obtain ⟨htidy, -⟩ := h.find_dependency hdisk hwrite hmem
      obtain ⟨node, hnode, hless⟩ := holder dependency (List.mem_cons_of_mem _ hmem)
      rw [htidy]
      exact ⟨node, hnode, Nat.le_of_lt hless⟩

end Leaves

/-- A file that is written anew while a pass waits is judged by its stamp alone. The entry that the
pass stores holds what was compiled, with the dependencies of the text that was read. If the source
or one of them is written anew with a stamp behind that of the entry, the entry may not be used. If
all of them are older than the entry, it may, and it may for as long as they and the entry stay as
they are, although the file holds another text than the one that was compiled. -/
theorem isValid_interrupted (hcache : p.cache = some directory)
    (huses : usesCache settings p = true) (hdisk : pass.session.disk.WellFormed)
    (h : Interrupted settings p pass mid late pass' request output file bytes edited now d')
    (hfile : file ∈ pass.sheet.path :: mid.sheet.styleDependencies.getD []) :
    ∃ entry text written, mid.sheet.contents = some text ∧
      readEntry pass'.session.disk directory pass.sheet.path Transform.tag = .ok entry ∧
      entry.contents = output.css ∧ entry.sourceMap = output.map ∧
      Dependency.dependencies pass.session.disk (searchOf request) pass.sheet.path text =
        .ok entry.dependencies ∧
      (∃ content, pass'.session.disk.find (entryPath directory pass.sheet.path Transform.tag) =
        .ok (.file content written)) ∧ now.units ≤ written.units ∧
      (written.units < edited.units → ∀ records,
        isValid pass'.session.disk directory pass.sheet.path Transform.tag ≠ .ok (true, records)) ∧
      ((∀ other ∈ pass.sheet.path :: entry.dependencies, ∀ node, d'.find other = .ok node →
          node.stamp.units < written.units) →
        d'.isFile pass.sheet.path = true →
        d'.lexical pass.sheet.path ≠ entryLocation d' directory pass.sheet.path →
        pass'.session.disk.readBytes file = .ok bytes ∧
        isValid pass'.session.disk directory pass.sheet.path Transform.tag = .ok (true, []) ∧
        ∀ later : Disk, (∀ other ∈ entryPath directory pass.sheet.path Transform.tag ::
            pass.sheet.path :: entry.dependencies,
            later.find other = pass'.session.disk.find other) →
          isValid later directory pass.sheet.path Transform.tag = .ok (true, [])) := by
  obtain ⟨hsame, text, found, written, hleaves⟩ := h.exists_leaves hcache huses hdisk
  have hwrite := h.overwritten
  rw [hsame] at hwrite
  rw [hleaves.known, Option.getD_some] at hfile
  refine ⟨_, text, written, hleaves.contents, hleaves.read, rfl, rfl, hleaves.dependencies,
    hleaves.stamp, hleaves.later, hleaves.isValid_ne_of_written_lt hdisk hwrite hfile, ?_⟩
  intro hearly hsource hother
  obtain ⟨hbytes, hvalid⟩ :=
    hleaves.isValid_of_lt_written hdisk hwrite hfile hearly hsource hother
  refine ⟨hbytes, hvalid, ?_⟩
  intro later hlater
  refine (isValid_of_find_kept hvalid hleaves.read ?_).2
  intro other hmem node hnode
  rw [hlater other ?_, hnode]
  simp only [List.mem_cons, List.mem_map] at hmem ⊢
  rcases hmem with rfl | rfl | ⟨dependency, hmem, rfl⟩
  · exact .inl rfl
  · exact .inr (.inl rfl)
  · obtain ⟨htidy, -⟩ := hleaves.find_dependency hdisk hwrite hmem
    rw [htidy]
    exact .inr (.inr hmem)

/-- The disk of the first pass somewhat later. -/
def laterPair : Disk := { pair with clock := ⟨2⟩ }

/-- The stylesheet is written anew, and then the disk takes the entry. -/
theorem exists_overwritten_pair : ∃ d' after : Disk,
    laterPair.writeBytes "/s/main.scss" (Text.Utf8.encode ".b".toList) = .ok d' ∧
    writeEntry { d' with clock := ⟨3⟩ } "/c" pairEntry = .ok after ∧
    d'.isFile "/s/main.scss" = true ∧
    ∀ file node, d'.find file = .ok node → node.stamp.units < 3 := by
  have hfacts : (laterPair.writeBytes "/s/main.scss" (Text.Utf8.encode ".b".toList)).toOption.any
      (fun d' : Disk => (writeEntry { d' with clock := ⟨3⟩ } "/c" pairEntry).isOk &&
        d'.isFile "/s/main.scss" &&
        d'.nodes.all fun entry => decide (entry.2.stamp.units < 3)) = true := by decide +kernel
  obtain ⟨d', hwrite, hfacts⟩ := exists_ok_of_any hfacts
  simp only [Bool.and_eq_true] at hfacts
  obtain ⟨⟨hstores, hfile⟩, hstamps⟩ := hfacts
  obtain ⟨after, hafter⟩ := exists_writeEntry_eq_ok hstores
  refine ⟨d', after, hwrite, hafter, hfile, ?_⟩
  intro file node hfind
  obtain ⟨location, -, hnode⟩ := Disk.find_eq_ok_iff.1 hfind
  exact of_decide_eq_true (List.all_eq_true.1 hstamps _ (Table.mem_of_get? hnode))

/-- The first pass is interrupted: the stylesheet is written anew before the entry is stored. -/
theorem exists_interrupted_pair : ∃ mid late pass' request d',
    Interrupted .default cachingProject firstPass mid late pass' request ⟨"", none⟩ "/s/main.scss"
      (Text.Utf8.encode ".b".toList) ⟨2⟩ ⟨3⟩ d' ∧
    mid.sheet.contents = some "@import 'a';" ∧ mid.session.disk = pair ∧
    (∀ file node, d'.find file = .ok node → node.stamp.units < 3) ∧
    d'.isFile "/s/main.scss" = true ∧
    d'.lexical "/s/main.scss" ≠ entryLocation d' "/c" "/s/main.scss" := by
  obtain ⟨mid, hprepare, hawaits⟩ :=
    Transform.exists_prepare_run makes_firstPass (misses_pair .default)
  obtain ⟨d', after, hwrite, hafter, hfile, hstamps⟩ := exists_overwritten_pair
  have hcache : cachingProject.cache = some "/c" := rfl
  have hdisk : mid.session.disk = pair := hawaits.disk
  let late : Pass :=
    { mid with session := { mid.session with disk := { d' with clock := ⟨3⟩ } } }
  have hentry : Transform.entryFor late.sheet ⟨"", none⟩ = pairEntry := by
    simp only [Transform.entryFor, late, hawaits.path, hawaits.dependencies, Option.getD_some]
    rfl
  have hsettle : (settle .default cachingProject ⟨none, some ⟨"", none⟩⟩).run late =
      (.ok (), Transform.compiled late ⟨"", none⟩ after) := by
    rw [Transform.settle_run hcache rfl, hentry, hafter]
  have hoverwritten : { mid.session.disk with clock := ⟨2⟩ }.writeBytes "/s/main.scss"
      (Text.Utf8.encode ".b".toList) = .ok d' := by
    rw [hdisk]
    exact hwrite
  obtain ⟨_, -, hwriting, -⟩ := (wellFormed_pair.withClock _).writeBytes hwrite
  have hhome : d'.home = pair.home := hwriting.home
  refine ⟨mid, late, _, _, d', ⟨hprepare, hoverwritten, rfl, rfl, hsettle⟩, hawaits.contents, hdisk,
    hstamps, hfile, ?_⟩
  rw [Disk.lexical_congr hhome, entryLocation_congr hhome]
  exact lexical_main_ne

/-- Behind the interrupted pass the entry may be used, though the stylesheet has another text than
the one that was compiled. -/
theorem isValid_interrupted_pair : ∃ mid late pass' request d' written,
    Interrupted .default cachingProject firstPass mid late pass' request ⟨"", none⟩ "/s/main.scss"
      (Text.Utf8.encode ".b".toList) ⟨2⟩ ⟨3⟩ d' ∧ (⟨2⟩ : Stamp).units < written ∧
    (∀ other ∈ ["/s/main.scss", "/s/_a.scss"], ∀ node, d'.find other = .ok node →
      node.stamp.units < written) ∧
    pass'.session.disk.readBytes "/s/main.scss" = .ok (Text.Utf8.encode ".b".toList) ∧
    isValid pass'.session.disk "/c" "/s/main.scss" Transform.tag = .ok (true, []) := by
  obtain ⟨mid, late, pass', request, d', hpass, -, -, hstamps, hfile, hother⟩ :=
    exists_interrupted_pair
  obtain ⟨entry, text, written, -, -, -, -, -, -, hlater, -, hvalid⟩ :=
    isValid_interrupted rfl rfl wellFormed_pair hpass (List.mem_cons_self ..)
  have hearly : ∀ other node, d'.find other = .ok node → node.stamp.units < written.units := by
    intro other node hfind
    have hless := hstamps other node hfind
    have hnow : 3 ≤ written.units := hlater
    omega
  have hnow : 3 ≤ written.units := hlater
  obtain ⟨hbytes, hused, -⟩ := hvalid (fun other _ => hearly other) hfile hother
  exact ⟨mid, late, pass', request, d', written.units, hpass, hnow, fun other _ => hearly other,
    hbytes, hused⟩

/-- A file that is written anew while a pass waits, later than it was read and earlier than the
entry is stored, need not make the entry useless. -/
theorem exists_unnoticed_overwrite : ∃ mid late pass' request d' written content,
    Interrupted .default cachingProject firstPass mid late pass' request ⟨"", none⟩ "/s/main.scss"
      (Text.Utf8.encode ".b".toList) ⟨2⟩ ⟨3⟩ d' ∧
    mid.sheet.contents = some "@import 'a';" ∧ mid.session.disk.clock.units < 2 ∧
    pass'.session.disk.find (entryPath "/c" "/s/main.scss" Transform.tag) =
      .ok (.file content ⟨written⟩) ∧ 2 < written ∧
    pass'.session.disk.readText "/s/main.scss" = .ok ".b" ∧
    isValid pass'.session.disk "/c" "/s/main.scss" Transform.tag = .ok (true, []) := by
  obtain ⟨mid, late, pass', request, d', hpass, hcontents, hdisk, hstamps, hfile, hother⟩ :=
    exists_interrupted_pair
  have hcache : cachingProject.cache = some "/c" := rfl
  obtain ⟨-, text, found, written, hleaves⟩ :=
    hpass.exists_leaves hcache rfl wellFormed_pair
  have hnow : 3 ≤ written.units := hleaves.later
  have hwrite := hpass.overwritten
  rw [hdisk] at hwrite
  obtain ⟨hbytes, hvalid⟩ := hleaves.isValid_of_lt_written wellFormed_pair hwrite
    (List.mem_cons_self ..) (fun other _ node hfind => Nat.lt_of_lt_of_le (hstamps other node hfind)
      hnow) hfile hother
  have htext : pass'.session.disk.readText "/s/main.scss" = .ok ".b" := by
    have hread : pass'.session.disk.readBytes "/s/main.scss" =
        .ok (Text.Utf8.encode ".b".toList) := hbytes
    rw [Disk.readText, hread]
    exact Disk.textOf_encode (by decide)
  obtain ⟨content, hstamp⟩ := hleaves.stamp
  refine ⟨mid, late, pass', request, d', written.units, content, hpass, hcontents, ?_, hstamp, hnow,
    htext, hvalid⟩
  rw [hdisk]
  decide

end StyleBundle.Cache
