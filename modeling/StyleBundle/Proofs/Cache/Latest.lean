import StyleBundle.Proofs.Cache.History
import StyleBundle.Proofs.Cache.Layout
import StyleBundle.Proofs.Transform.Outcome

/-!
# What reaches the cache

Passes with all kinds of settings, projects and compilers share one cache, and files elsewhere are
edited between them. What stands in the cache is then a matter of the compiled text alone: the entry
of a source is that of the latest pass over it that got compiled text and used the cache, and a pass
that did not has changed nothing.
-/

namespace StyleBundle

/-- The bytes of the file at a location. -/
def Disk.bytesAt? (d : Disk) (location : Location) : Option (List UInt8) :=
  match d.node? location with
  | some (.file bytes _) => some bytes
  | _ => none

theorem Disk.bytesAt?_eq_some_iff {d : Disk} {location : Location} {bytes : List UInt8} :
    d.bytesAt? location = some bytes ↔
      ∃ changed, d.node? location = some (.file bytes changed) := by
  unfold bytesAt?
  split
  next hnode => simp [hnode]
  next hnode =>
    simp only [reduceCtorEq, false_iff, not_exists]
    exact hnode bytes

/-- Files hold the same bytes later, but for those at changed locations. -/
theorem Disk.Evolves.bytesAt? {changed : Location → Prop} {d d' : Disk} (h : Evolves changed d d')
    {location : Location} (hlocation : ¬ changed location) :
    d'.bytesAt? location = d.bytesAt? location := by
  apply Option.ext
  intro bytes
  simp only [bytesAt?_eq_some_iff, h.files location hlocation]

namespace Cache

open Transform (Pass transform usesCache outputOf entryFor settle)

/-- A pass over a stylesheet of a project. -/
structure Visit where
  /-- The settings. -/
  settings : Settings
  /-- The project. -/
  project : Project
  /-- The pass as it starts. -/
  pass : Pass

namespace Visit

variable {v : Visit} {entry : Entry} {directory : String} {d' : Disk}

/-- The disk behind the pass, however it ends. -/
def after (v : Visit) : Disk := ((transform v.settings v.project).run v.pass).2.session.disk

/-- The entry that the pass makes. There is none if the settings or the project do not use the
cache, and none if the pass gets no compiled text. -/
def made (v : Visit) : Option Entry :=
  if usesCache v.settings v.project ∧ v.project.cache.isSome then
    (outputOf v.settings v.project v.pass).map fun (sheet, output) => entryFor sheet output
  else none

/-- A pass makes its entry of the compiled text that it gets. -/
theorem made_eq_some_iff : v.made = some entry ↔
    usesCache v.settings v.project = true ∧ (∃ directory, v.project.cache = some directory) ∧
      ∃ sheet output, outputOf v.settings v.project v.pass = some (sheet, output) ∧
        entryFor sheet output = entry := by
  rw [made, ← Option.isSome_iff_exists]
  split
  next huses => simp [huses.1, huses.2]
  next huses =>
    simp only [reduceCtorEq, false_iff]
    rintro ⟨hsettings, hcache, -⟩
    exact huses ⟨hsettings, hcache⟩

/-- An entry is that of the pass's source, under the tag of the transform. -/
theorem path_of_made (h : v.made = some entry) : entry.path = v.pass.sheet.path ∧
    entry.tag = Transform.tag ∧ entry.version = formatVersion := by
  obtain ⟨-, -, sheet, output, houtput, rfl⟩ := made_eq_some_iff.1 h
  exact ⟨Transform.path_of_outputOf houtput, rfl, rfl⟩

/-- A pass that makes no entry leaves the disk as it is, however it ends. -/
theorem after_of_made_eq_none (h : v.made = none) : v.after = v.pass.session.disk := by
  obtain ⟨result, pass', hrun⟩ : ∃ result pass',
      (transform v.settings v.project).run v.pass = (result, pass') := ⟨_, _, rfl⟩
  rw [after, hrun]
  rcases Transform.disk_or_caches_of_transform hrun with hkept | ⟨directory, text, given, found,
    output, hcaches⟩
  · exact hkept
  · obtain ⟨sheet, houtput, -⟩ := hcaches.exists_outputOf
    rw [made_eq_some_iff.2 ⟨hcaches.uses, ⟨directory, hcaches.cache⟩, sheet, output, houtput,
      rfl⟩] at h
    cases h

/-- A pass that makes an entry writes it. -/
theorem after_of_writeEntry (h : v.made = some entry) (hcache : v.project.cache = some directory)
    (hwritten : writeEntry v.pass.session.disk directory entry = .ok d') : v.after = d' := by
  obtain ⟨huses, -, sheet, output, houtput, rfl⟩ := made_eq_some_iff.1 h
  obtain ⟨sent, hrun, rfl, hdisk⟩ := Transform.exists_run_of_outputOf houtput
  rw [after, hrun, Transform.settle_run hcache huses, hdisk, hwritten]
  rfl

end Visit

/-- A pass that starts on a disk and shares the cache at a location. What it writes is taken. -/
structure Shares (base : Location) (d : Disk) (v : Visit) : Prop where
  /-- The pass starts on the disk. -/
  disk : v.pass.session.disk = d
  /-- The project has its cache at the location, if it has one. -/
  cache : ∀ directory, v.project.cache = some directory → d.lexical directory = base
  /-- The disk takes the entry. -/
  taken : ∀ directory entry, v.project.cache = some directory → v.made = some entry →
    (writeEntry d directory entry).isOk = true

/-- What becomes of a disk on which passes share the cache at a location, with the passes so far,
the latest first. -/
inductive Sharing (base : Location) (start : Disk) : List Visit → Disk → Prop
  /-- Nothing has happened. -/
  | start : Sharing base start [] start
  /-- A pass. -/
  | visit {visits : List Visit} {d : Disk} {v : Visit} (h : Sharing base start visits d)
      (hshares : Shares base d v) : Sharing base start (v :: visits) v.after
  /-- Any change of what does not stand below the cache. -/
  | edit {visits : List Visit} {d d' : Disk} (h : Sharing base start visits d)
      (hd' : d'.WellFormed) (hhome : d'.home = d.home)
      (hbelow : ∀ names ≠ [], d'.node? (base ++ names) = d.node? (base ++ names)) :
      Sharing base start visits d'

/-- The entry of a source that was made last. -/
def latest (visits : List Visit) (path : String) : Option Entry :=
  visits.findSome? fun v => v.made.filter (·.path = path)

variable {base : Location} {start d d' : Disk} {visits : List Visit} {v : Visit} {path : String}
  {entry : Entry}

/-- There is a latest entry of a source if a pass over it has made one. -/
theorem isSome_latest_iff : (latest visits path).isSome = true ↔
    ∃ v ∈ visits, v.pass.sheet.path = path ∧ v.made.isSome = true := by
  rw [latest, List.isSome_findSome?, List.any_eq_true]
  refine exists_congr fun v => and_congr_right fun _ => ?_
  cases hentry : v.made with
  | none => simp
  | some entry => simp [Option.filter, (Visit.path_of_made hentry).1]

/-- The latest entry is one that a pass has made. -/
theorem exists_made_of_latest (h : latest visits path = some entry) :
    ∃ v ∈ visits, v.made = some entry := by
  obtain ⟨v, hmem, hfilter⟩ := List.exists_of_findSome?_eq_some h
  exact ⟨v, hmem, (Option.filter_eq_some_iff.1 hfilter).1⟩

/-- A pass that has made no entry is not the latest one. -/
theorem latest_cons_of_none (h : v.made = none) (visits : List Visit) (path : String) :
    latest (v :: visits) path = latest visits path := by
  simp [latest, h]

/-- A pass that has made an entry is the latest one over its source. -/
theorem latest_cons_of_some (h : v.made = some entry) (visits : List Visit) (path : String) :
    latest (v :: visits) path = if entry.path = path then some entry else latest visits path := by
  by_cases hpath : entry.path = path <;> simp [latest, h, hpath, Option.filter]

/-- What the cache holds after some passes: of every source whose digest is its own, the file with
the latest entry. -/
structure Represents (base : Location) (start : Disk) (visits : List Visit) (d : Disk) : Prop where
  /-- The disk is a tree. -/
  wellFormed : d.WellFormed
  /-- The working directory is the same. -/
  home : d.home = start.home
  /-- The file of a source holds the latest entry, and there is none if no pass has made one. -/
  bytes : ∀ path, (∀ v ∈ visits, fileName v.pass.sheet.path = fileName path →
    v.pass.sheet.path = path) → d.bytesAt? (base ++ [Transform.tag, fileName path]) =
      (latest visits path).map fun entry => Text.Utf8.encode entry.print.toList

/-- A pass keeps what the cache holds up to date. -/
theorem Represents.visit (h : Represents base start visits d) (hshares : Shares base d v) :
    Represents base start (v :: visits) v.after := by
  cases hmade : v.made with
  | none =>
    have hkept : v.after = d := (Visit.after_of_made_eq_none hmade).trans hshares.disk
    rw [hkept]
    refine ⟨h.wellFormed, h.home, fun path hdigest => ?_⟩
    rw [latest_cons_of_none hmade]
    exact h.bytes path fun other hother => hdigest other (List.mem_cons_of_mem _ hother)
  | some entry =>
    obtain ⟨-, ⟨directory, hcache⟩, -⟩ := Visit.made_eq_some_iff.1 hmade
    obtain ⟨hpath, htag, -⟩ := Visit.path_of_made hmade
    obtain ⟨d', hwritten⟩ := exists_writeEntry_eq_ok (hshares.taken directory entry hcache hmade)
    have hafter : v.after = d' :=
      Visit.after_of_writeEntry hmade hcache (hshares.disk.symm ▸ hwritten)
    obtain ⟨location, stamp, hlexical, -, hwriting, hd', hnode, -⟩ :=
      evolves_writeEntry h.wellFormed hwritten
    rw [htag, lexical_entryPath d directory entry.path isFileName_tag.1,
      hshares.cache directory hcache] at hlexical
    rw [hafter]
    refine ⟨hd', hwriting.home.trans h.home, fun path hdigest => ?_⟩
    rw [latest_cons_of_some hmade]
    split
    next hsame =>
      rw [← hsame, hlexical]
      exact Disk.bytesAt?_eq_some_iff.2 ⟨stamp, hnode⟩
    next hother =>
      have hdigest' : fileName entry.path ≠ fileName path := by
        rw [hpath] at hother ⊢
        exact fun heq => hother (hdigest v (List.mem_cons_self ..) heq)
      rw [hwriting.bytesAt?,
        h.bytes path fun other hmem => hdigest other (List.mem_cons_of_mem _ hmem)]
      rw [← hlexical]
      intro heq
      have hnames := List.append_cancel_left heq
      exact hdigest' (by simpa using hnames.symm)

/-- However passes and edits elsewhere follow each other, the cache is kept up to date. -/
theorem Sharing.represents (hstart : start.WellFormed)
    (hempty : ∀ names ≠ [], start.node? (base ++ names) = none)
    (h : Sharing base start visits d) : Represents base start visits d := by
  induction h with
  | start =>
    refine ⟨hstart, rfl, fun path _ => ?_⟩
    rw [Disk.bytesAt?, hempty _ (by simp)]
    rfl
  | visit _ hshares ih => exact ih.visit hshares
  | edit _ hd' hhome hbelow ih =>
    refine ⟨hd', hhome.trans ih.home, fun path hdigest => ?_⟩
    rw [← ih.bytes path hdigest, Disk.bytesAt?, Disk.bytesAt?, hbelow _ (by simp)]

/-- Only compiled text reaches the cache. Whatever passes share it, and whatever is edited elsewhere
in between, there is an entry of a source exactly if a pass over it has used the cache and got
compiled text, and it is the entry that the latest of these passes has made. A pass that makes no
entry leaves the whole disk as it is. -/
theorem bytesAt?_of_sharing (hstart : start.WellFormed)
    (hempty : ∀ names ≠ [], start.node? (base ++ names) = none) (h : Sharing base start visits d)
    (hdigest : ∀ v ∈ visits, fileName v.pass.sheet.path = fileName path →
      v.pass.sheet.path = path) :
    ((d.bytesAt? (base ++ [Transform.tag, fileName path])).isSome = true ↔
        ∃ v ∈ visits, v.pass.sheet.path = path ∧ v.made.isSome = true) ∧
      d.bytesAt? (base ++ [Transform.tag, fileName path]) =
        (latest visits path).map (fun entry => Text.Utf8.encode entry.print.toList) ∧
      (∀ directory entry, latest visits path = some entry → d.lexical directory = base →
        (∃ location, d.locate (entryPath directory path Transform.tag) = .ok location) →
        readEntry d directory path Transform.tag = .ok entry) ∧
      ∀ v, Shares base d v → v.made = none → v.after = d := by
  have hbytes := (h.represents hstart hempty).bytes path hdigest
  refine ⟨?_, hbytes, ?_, ?_⟩
  · rw [hbytes, Option.isSome_map, isSome_latest_iff]
  · rintro directory entry hlatest hbase ⟨location, hlocate⟩
    rw [hlatest] at hbytes
    obtain ⟨stamp, hnode⟩ := Disk.bytesAt?_eq_some_iff.1 hbytes
    rw [← hbase, ← lexical_entryPath d directory path isFileName_tag.1,
      ← Disk.eq_lexical_of_locate hlocate] at hnode
    obtain ⟨v, -, hmade⟩ := exists_made_of_latest hlatest
    exact readEntry_eq_ok hlocate hnode (Visit.path_of_made hmade).2.2
  · intro v hshares hmade
    rw [Visit.after_of_made_eq_none hmade, hshares.disk]

/-- The first pass over the stylesheet. -/
def firstVisit : Visit := ⟨.default, cachingProject, firstPass⟩

/-- The first pass makes the entry of the stylesheet. -/
theorem made_firstVisit : firstVisit.made = some pairEntry := by
  obtain ⟨d, hwritten⟩ := exists_writeEntry_pair
  obtain ⟨sheet, houtput, hfound⟩ := (caches_firstPass hwritten).exists_outputOf
  refine Visit.made_eq_some_iff.2 ⟨rfl, ⟨"/c", rfl⟩, sheet, ⟨"", none⟩, houtput, ?_⟩
  rw [entryFor, Transform.path_of_outputOf houtput, hfound]
  rfl

/-- The first pass shares the cache. -/
theorem shares_firstVisit : Shares ["c"] pair firstVisit where
  disk := rfl
  cache directory hcache := by
    obtain rfl := Option.some.inj hcache
    decide +kernel
  taken directory entry hcache hmade := by
    obtain rfl := Option.some.inj hcache
    obtain rfl := Option.some.inj (made_firstVisit.symm.trans hmade)
    obtain ⟨d, hwritten⟩ := exists_writeEntry_pair
    rw [hwritten]
    rfl

/-- Behind the first pass there is an entry of the stylesheet. -/
theorem bytesAt?_of_sharing_pair : pair.WellFormed ∧
    (∀ names ≠ [], pair.node? (["c"] ++ names) = none) ∧
    Sharing ["c"] pair [firstVisit] firstVisit.after ∧
    firstVisit.after.bytesAt? ["c", Transform.tag, fileName "/s/main.scss"] =
      some (Text.Utf8.encode pairEntry.print.toList) := by
  have hempty : ∀ names ≠ [], pair.node? (["c"] ++ names) = none := by
    intro names _
    have hnames : ∀ entry ∈ pair.nodes, entry.1.head? ≠ some "c" := by decide
    apply Option.eq_none_iff_forall_ne_some.2
    intro node hnode
    exact hnames _ (Table.mem_of_get? hnode) rfl
  have hsharing : Sharing ["c"] pair [firstVisit] firstVisit.after :=
    .visit .start shares_firstVisit
  have hdigest : ∀ v ∈ [firstVisit], fileName v.pass.sheet.path = fileName "/s/main.scss" →
      v.pass.sheet.path = "/s/main.scss" := by
    intro v hv _
    rw [List.mem_singleton.1 hv]
    rfl
  obtain ⟨-, hbytes, -⟩ := bytesAt?_of_sharing wellFormed_pair hempty hsharing hdigest
  refine ⟨wellFormed_pair, hempty, hsharing, ?_⟩
  rw [latest_cons_of_some made_firstVisit] at hbytes
  exact hbytes

end Cache

end StyleBundle
