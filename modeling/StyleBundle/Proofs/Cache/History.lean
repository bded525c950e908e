import Mathlib.Logic.Relation
import StyleBundle.Proofs.Cache.Stored
import StyleBundle.Proofs.Dependency.Traversal

/-!
# Histories of the cache

In a history of a cache, stylesheets are transformed one after another, and in between files are
written anew or removed and time goes on. No file comes up but entries. Every entry that stands at
some point of a history was stored at an earlier one, and nothing newer than the entry is as it was
then. So an entry that may be used says what a new transform would find.
-/

namespace StyleBundle.Cache

open Transform (searchFor Stores)

variable {settings : Settings} {directory path : String} {sources : List String}
  {start d d' d'' : Disk} {location : Location}

/-- A step in the history of the cache in a directory, from one disk to the next. The sources are
the stylesheets that are transformed. -/
inductive Step (settings : Settings) (directory : String) (sources : List String) :
    Disk → Disk → Prop
  /-- A stylesheet that has not been loaded yet is transformed. -/
  | transform {p : Project} {pass pass' : Transform.Pass} (hcache : p.cache = some directory)
      (hsource : pass.sheet.path ∈ sources) (hfresh : pass.sheet.contents = none)
      (hrun : (Transform.transform settings p).run pass = (.ok (), pass')) :
      Step settings directory sources pass.session.disk pass'.session.disk
  /-- A file that is no entry is written anew. -/
  | write {d d' : Disk} {path : String} {bytes : List UInt8} (hfile : d.isFile path = true)
      (houtside : ∀ source, d.lexical path ≠ entryLocation d directory source)
      (hwrite : d.writeBytes path bytes = .ok d') : Step settings directory sources d d'
  /-- A file that is no entry is removed. -/
  | remove {d : Disk} {location : Location} {bytes : List UInt8} {changed : Stamp}
      (hfile : d.node? location = some (.file bytes changed))
      (houtside : ∀ source, location ≠ entryLocation d directory source) :
      Step settings directory sources d (d.erase location)
  /-- Time goes on. -/
  | wait {d : Disk} {clock : Stamp} (hlater : d.clock.units ≤ clock.units) :
      Step settings directory sources d { d with clock }

/-- A history: any number of steps. -/
def Run (settings : Settings) (directory : String) (sources : List String) : Disk → Disk → Prop :=
  Relation.ReflTransGen (Step settings directory sources)

/-! ## What a step keeps -/

theorem entryLocation_congr (hhome : d'.home = d.home) (directory path : String) :
    entryLocation d' directory path = entryLocation d directory path :=
  Disk.lexical_congr hhome _

theorem OnlyEntriesAppear.refl (d : Disk) : OnlyEntriesAppear d d :=
  fun _ bytes changed h => .inr ⟨bytes, changed, h⟩

theorem OnlyEntriesAppear.trans (h : OnlyEntriesAppear d d') (h' : OnlyEntriesAppear d' d'') :
    OnlyEntriesAppear d d'' := by
  intro location bytes changed hnode
  rcases h' location bytes changed hnode with hentry | ⟨bytes', changed', hnode'⟩
  · exact .inl hentry
  · exact h location bytes' changed' hnode'

/-- A change of a file or of an entry makes no file come up but entries. -/
theorem onlyEntriesAppear_of_evolves (h : Disk.Evolves (· = location) d d')
    (hlocation : IsEntryLocation location ∨ ∃ bytes changed,
      d.node? location = some (.file bytes changed)) : OnlyEntriesAppear d d' := by
  intro other bytes changed hnode
  by_cases hother : other = location
  · exact hother ▸ hlocation
  · exact .inr ⟨bytes, changed, (h.files other hother bytes changed).1 hnode⟩

/-- What one step does to the disk: it changes one file, which was there before and is no entry, or
it stores an entry, or it changes no file. -/
theorem Step.change (himporting : settings.importing = .off) (hd : d.WellFormed)
    (h : Step settings directory sources d d') : d'.WellFormed ∧
      ((∃ entry, Stores settings directory d entry d' ∧ entry.path ∈ sources) ∨
        (∃ location bytes changed, d.node? location = some (.file bytes changed) ∧
          (∀ source, location ≠ entryLocation d directory source) ∧
          Disk.Evolves (· = location) d d') ∨
        Disk.Evolves (fun _ => False) d d') := by
  cases h with
  | @transform p pass pass' hcache hsource hfresh hrun =>
    rcases Transform.transform_ok himporting hfresh hrun with hsame | ⟨other, entry, hother, -,
      hpath, hstores⟩
    · rw [hsame]
      exact ⟨hd, .inr (.inr (.refl _))⟩
    · obtain rfl := Option.some.inj (hcache.symm.trans hother)
      obtain ⟨-, hd'⟩ := evolves_of_stores hd hstores
      exact ⟨hd', .inl ⟨entry, hstores, hpath ▸ hsource⟩⟩
  | write hfile houtside hwrite =>
    obtain ⟨location, hlocate, hwriting, hd', -⟩ := hd.writeBytes hwrite
    obtain ⟨location', bytes, changed, hlocate', hnode⟩ := Disk.isFile_iff.1 hfile
    obtain rfl := Except.ok.inj (hlocate.symm.trans hlocate')
    rw [← Disk.eq_lexical_of_locate hlocate] at houtside
    exact ⟨hd', .inr (.inl ⟨location, bytes, changed, hnode, houtside, hwriting⟩)⟩
  | remove hfile houtside =>
    exact ⟨hd.erase hfile, .inr (.inl ⟨_, _, _, hfile, houtside, hd.evolves_erase hfile⟩)⟩
  | wait hlater =>
    refine ⟨hd.withClock _, .inr (.inr ⟨rfl, hlater, ?_, ?_, ?_⟩)⟩
    · exact fun _ _ _ _ => Iff.rfl
    · exact fun _ hdirectory => hdirectory
    · exact fun _ _ hnode => .inl hnode

/-- A step leaves the tree well formed. No file comes up but entries, and what is new is stamped. -/
theorem Step.evolves (himporting : settings.importing = .off) (hd : d.WellFormed)
    (h : Step settings directory sources d d') :
    d'.WellFormed ∧ Disk.Evolves (fun _ => True) d d' ∧ OnlyEntriesAppear d d' := by
  obtain ⟨hd', hcases⟩ := h.change himporting hd
  refine ⟨hd', ?_⟩
  rcases hcases with ⟨entry, hstores, -⟩ | ⟨location, bytes, changed, hnode, -, hchange⟩ | hsame
  · obtain ⟨hwriting, -⟩ := evolves_of_stores hd hstores
    exact ⟨hwriting.mono fun _ _ => trivial, onlyEntriesAppear_of_evolves hwriting
      (.inl (isEntryLocation_entryLocation d directory entry.path))⟩
  · exact ⟨hchange.mono fun _ _ => trivial,
      onlyEntriesAppear_of_evolves hchange (.inr ⟨bytes, changed, hnode⟩)⟩
  · refine ⟨hsame.mono fun _ _ => trivial, fun location bytes changed hnode => ?_⟩
    exact .inr ⟨bytes, changed, (hsame.files location (fun h => h) bytes changed).1 hnode⟩

/-- An entry behind a step stood there before, or the step has stored it. -/
theorem Step.entry (himporting : settings.importing = .off) (hd : d.WellFormed)
    (h : Step settings directory sources d d') {bytes : List UInt8} {changed : Stamp}
    (hnode : d'.node? (entryLocation d directory path) = some (.file bytes changed)) :
    d.node? (entryLocation d directory path) = some (.file bytes changed) ∨
      ∃ entry, Stores settings directory d entry d' ∧ entry.path ∈ sources ∧
        fileName entry.path = fileName path := by
  obtain ⟨-, hcases⟩ := h.change himporting hd
  rcases hcases with ⟨entry, hstores, hsource⟩ | ⟨location, _, _, -, houtside, hchange⟩ | hsame
  · by_cases hentry : entryLocation d directory path = entryLocation d directory entry.path
    · exact .inr ⟨entry, hstores, hsource, fileName_eq_of_lexical_eq hentry.symm⟩
    · exact .inl (((evolves_of_stores hd hstores).1.files _ hentry bytes changed).1 hnode)
  · exact .inl ((hchange.files _ (houtside path).symm bytes changed).1 hnode)
  · exact .inl ((hsame.files _ (fun h => h) bytes changed).1 hnode)

/-! ## What a history keeps -/

/-- A history leaves the tree well formed. No file comes up but entries, and what is new is
stamped. -/
theorem Run.evolves (himporting : settings.importing = .off) (hd : d.WellFormed)
    (h : Run settings directory sources d d') :
    d'.WellFormed ∧ Disk.Evolves (fun _ => True) d d' ∧ OnlyEntriesAppear d d' := by
  induction h with
  | refl => exact ⟨hd, .refl d, .refl d⟩
  | tail _ hstep ih =>
    obtain ⟨hmid, hevolves, honly⟩ := ih
    obtain ⟨hd', hevolves', honly'⟩ := hstep.evolves himporting hmid
    exact ⟨hd', hevolves.trans hevolves', honly.trans honly'⟩

/-- An entry that stands at some point of a history from an empty cache was stored at an earlier
one, for a source whose path has the same digest, and has not been touched since. -/
theorem Run.exists_stores (himporting : settings.importing = .off) (hstart : start.WellFormed)
    (hempty : ∀ source, start.node? (entryLocation start directory source) = none)
    (hrun : Run settings directory sources start d) {bytes : List UInt8} {changed : Stamp}
    (hnode : d.node? (entryLocation start directory path) = some (.file bytes changed)) :
    ∃ before entry after, Run settings directory sources start before ∧
      Stores settings directory before entry after ∧ Run settings directory sources after d ∧
      entry.path ∈ sources ∧ fileName entry.path = fileName path ∧
      after.node? (entryLocation start directory path) = some (.file bytes changed) := by
  induction hrun with
  | refl => simp [hempty path] at hnode
  | @tail mid last hfirst hstep ih =>
    obtain ⟨hmid, hevolves, -⟩ := Run.evolves himporting hstart hfirst
    rw [← entryLocation_congr hevolves.home] at hnode ih ⊢
    rcases hstep.entry himporting hmid hnode with hold | ⟨entry, hstores, hsource, hname⟩
    · obtain ⟨before, entry, after, hbefore, hstores, hafter, hsource, hname, hnode⟩ := ih hold
      exact ⟨before, entry, after, hbefore, hstores, hafter.tail hstep, hsource, hname, hnode⟩
    · exact ⟨mid, entry, last, hfirst, hstores, .refl, hsource, hname, hnode⟩

/-- Soundness of the check. Whenever the entry of a source may be used, at any point of a history
from an empty cache, there is an earlier point at which it was stored for that source; the source
and all dependencies that are recorded still hold the bytes that they held then, and extracting the
dependencies anew gives exactly the ones that are recorded. The only way out is that another source
of the history has a path with the same digest, for these two share an entry. -/
theorem isValid_sound (himporting : settings.importing = .off) (hstart : start.WellFormed)
    (hempty : ∀ source, start.node? (entryLocation start directory source) = none)
    (hrun : Run settings directory sources start d) {records : List LogRecord}
    (hvalid : isValid d directory path Transform.tag = .ok (true, records)) :
    (∃ source ∈ sources, source ≠ path ∧ fileName source = fileName path) ∨
    ∃ before entry after, Run settings directory sources start before ∧
      Stores settings directory before entry after ∧ Run settings directory sources after d ∧
      entry.path = path ∧ readEntry d directory path Transform.tag = .ok entry ∧
      (∀ file ∈ path :: entry.dependencies, ∃ bytes,
        before.readBytes file = .ok bytes ∧ d.readBytes file = .ok bytes) ∧
      ∃ text, d.readText path = .ok text ∧
        Dependency.dependencies d (searchFor settings path) path text =
          .ok entry.dependencies := by
  obtain ⟨hd, hevolves, -⟩ := Run.evolves himporting hstart hrun
  obtain ⟨-, _, _, _, -, -, -, hread, -⟩ := isValid_eq_true.1 hvalid
  obtain ⟨text, htext⟩ := exists_text_of_readEntry hread
  obtain ⟨bytes, changed, -, hnode, -⟩ := Disk.readText_eq_ok_iff.1 htext
  rw [← entryLocation, entryLocation_congr hevolves.home] at hnode
  obtain ⟨before, entry, after, hbefore, hstores, hafter, hsource, hname, huntouched⟩ :=
    Run.exists_stores himporting hstart hempty hrun hnode
  by_cases hpath : entry.path = path
  · subst hpath
    obtain ⟨hwell, hearlier, -⟩ := Run.evolves himporting hstart hbefore
    obtain ⟨hwriting, hwritten⟩ := evolves_of_stores hwell hstores
    obtain ⟨-, hlater, honly⟩ := Run.evolves himporting hwritten hafter
    have hhome : after.home = start.home := hwriting.home.trans hearlier.home
    obtain ⟨written, hstands, -⟩ := stands_of_stores hwell hstores hlater (by
      rw [entryLocation_congr hhome, hnode, huntouched])
    have hsince : OnlyEntriesAppear before d :=
      (onlyEntriesAppear_of_evolves hwriting
        (.inl (isEntryLocation_entryLocation before directory entry.path))).trans honly
    exact .inr ⟨before, entry, after, hbefore, hstores, hafter, rfl, hstands.readEntry_eq,
      hstands.readBytes_of_isValid hwell hvalid,
      hstands.dependencies_of_isValid hwell hd hsince hvalid⟩
  · exact .inl ⟨entry.path, hsource, hpath, hname⟩

/-- A disk on which one stylesheet imports another, which stands behind an underscore. -/
def pair : Disk where
  nodes := [([], .directory ⟨0⟩), (["s"], .directory ⟨0⟩),
    (["s", "_a.scss"], .file [] ⟨0⟩),
    (["s", "main.scss"], .file (Text.Utf8.encode "@import 'a';".toList) ⟨0⟩)]
  home := ["s"]
  clock := ⟨1⟩

theorem wellFormed_pair : pair.WellFormed :=
  .of_nodes (by decide +kernel) (by decide +kernel) (by decide +kernel)

/-- No entry stands on the disk. -/
theorem node?_pair (source : String) : pair.node? (entryLocation pair "/c" source) = none := by
  have hlast : ∀ entry ∈ pair.nodes,
      (entry.1.getLast?.bind fun name => name.toList.getLast?) ≠ some 'n' := by decide
  have hentry := (isEntryLocation_entryLocation pair "/c" source).getLast?
  generalize entryLocation pair "/c" source = location at hentry ⊢
  apply Option.eq_none_iff_forall_ne_some.2
  intro node hnode
  exact hlast _ (Table.mem_of_get? hnode) hentry

/-- The text of the stylesheet is read from its bytes. -/
theorem readText_main {d : Disk}
    (hbytes : d.readBytes "/s/main.scss" = .ok (Text.Utf8.encode "@import 'a';".toList)) :
    d.readText "/s/main.scss" = .ok "@import 'a';" := by
  rw [Disk.readText, hbytes]
  exact Disk.textOf_encode (by decide)

/-- A text with one import depends on what that leads to, if this is empty. -/
theorem dependencies_of_empty {d : Disk} (hd : d.WellFormed) {search : Dependency.Search}
    {source path : String} (hhook : search.hook = none)
    (hresolve : Dependency.resolve d search source "a" = some path) (hne : path ≠ source)
    (hbytes : d.readBytes path = .ok []) :
    Dependency.dependencies d search source "@import 'a';" = .ok [path] := by
  have hempty : d.readText path = .ok "" := by
    rw [Disk.readText, hbytes]
    exact Disk.textOf_encode (by decide : '\r' ∉ "".toList)
  have hnone : Dependency.references path "" = [] := by
    rw [Dependency.references, Import.statements, Import.scan_eq_nil_of_not_mem (by simp)]
    rfl
  have hleads : Dependency.Leads d search source "a" path :=
    ⟨by decide, "a", by rw [Dependency.Redirects, hhook], hresolve⟩
  refine Dependency.dependencies_of_discovery hd (.of_none hhook) ?_
  rw [Dependency.references, Dependency.statements_single]
  have hbelow : Dependency.Discovery d search ([source] ++ [path])
      (Dependency.references path "") [] := by
    rw [hnone]
    exact .done
  exact Dependency.Discovery.visit (r := ⟨source, "a"⟩) hleads (by simpa using hne) hempty hbelow
    .done

/-- The stylesheet depends on what its one import leads to, if that is empty. -/
theorem dependencies_main {d : Disk} (hd : d.WellFormed) {path : String}
    (hresolve : Dependency.resolve d (searchFor .default "/s/main.scss") "/s/main.scss" "a" =
      some path)
    (hne : path ≠ "/s/main.scss") (hbytes : d.readBytes path = .ok []) :
    Dependency.dependencies d (searchFor .default "/s/main.scss") "/s/main.scss" "@import 'a';" =
      .ok [path] :=
  dependencies_of_empty hd rfl hresolve hne hbytes

theorem readText_pair : pair.readText "/s/main.scss" = .ok "@import 'a';" :=
  readText_main (by decide +kernel)

theorem dependencies_pair : Dependency.dependencies pair (searchFor .default "/s/main.scss")
    "/s/main.scss" "@import 'a';" = .ok ["/s/_a.scss"] :=
  dependencies_main wellFormed_pair (by decide +kernel) (by decide) (by decide +kernel)

/-- A project whose stylesheets are cached. -/
def cachingProject : Project :=
  { Project.rooted "/s" none none with usesCache := true, cache := some "/c" }

/-- A compiler that makes empty text of everything. -/
def emptyCompiler : Compiler :=
  .fresh (.host fun _ _ _ => ⟨none, .ok (⟨none, some ⟨"", none⟩⟩, [])⟩)

/-- The first pass over the stylesheet. -/
def firstPass : Transform.Pass :=
  ⟨⟨pair, none, none, none⟩, some emptyCompiler, .fresh "/s/main.scss" "main.scss", []⟩

/-- The entry of the stylesheet. -/
def pairEntry : Entry :=
  ⟨formatVersion, "/s/main.scss", Transform.tag, "", none, ["/s/_a.scss"]⟩

/-- The disk takes the entry. -/
theorem exists_writeEntry_pair : ∃ d, writeEntry pair "/c" pairEntry = .ok d :=
  exists_writeEntry_eq_ok (by decide +kernel)

theorem isValid_pair_eq_false :
    isValid pair "/c" "/s/main.scss" Transform.tag = .ok (false, []) :=
  isValid_of_probe_eq_none (by decide +kernel)

/-- No pass finds an entry for the stylesheet. -/
theorem misses_pair (settings : Settings) :
    Transform.Misses settings cachingProject pair "/s/main.scss" := by
  intro _ directory hcache
  obtain rfl := Option.some.inj hcache
  exact ⟨[], isValid_pair_eq_false⟩

/-- There is what the first pass makes its request of. -/
theorem makes_firstPass : Transform.Makes .default cachingProject firstPass "@import 'a';" none
    ["/s/_a.scss"] := by
  refine ⟨.inr ⟨rfl, readText_pair⟩, by decide, ⟨emptyCompiler, rfl⟩, rfl, ?_⟩
  rw [Transform.searchOf_requestFor rfl]
  exact dependencies_pair

/-- The first pass compiles the stylesheet and stores the entry. -/
theorem caches_firstPass {d : Disk} (h : writeEntry pair "/c" pairEntry = .ok d) :
    Transform.Caches .default cachingProject firstPass "/c" "@import 'a';" none ["/s/_a.scss"]
      ⟨"", none⟩ d :=
  ⟨rfl, rfl, misses_pair .default, makes_firstPass, ⟨emptyCompiler, rfl, rfl⟩, h⟩

/-- The first pass stores the entry. -/
theorem exists_firstPass_run {d : Disk} (h : writeEntry pair "/c" pairEntry = .ok d) : ∃ pass',
    (Transform.transform .default cachingProject).run firstPass = (.ok (), pass') ∧
      pass'.session.disk = d ∧ Stores .default "/c" pair pairEntry d := by
  obtain ⟨pass', hrun, hdisk, -⟩ := Transform.exists_transform_run (caches_firstPass h)
  exact ⟨pass', hrun, hdisk, ⟨_, readText_pair, dependencies_pair⟩, rfl, rfl, h⟩

/-- The stylesheet is not its own entry. -/
theorem lexical_main_ne :
    pair.lexical "/s/main.scss" ≠ entryLocation pair "/c" "/s/main.scss" := by
  intro heq
  have hentry := (isEntryLocation_entryLocation pair "/c" "/s/main.scss").getLast?
  have hlast : ((pair.lexical "/s/main.scss").getLast?.bind
      fun name => name.toList.getLast?) = some 's' := by decide +kernel
  rw [← heq, hlast] at hentry
  simp at hentry

/-- An entry of the stylesheet may be used right behind the pass that has stored it. -/
theorem isValid_of_stores_pair {entry : Entry} (hpath : entry.path = "/s/main.scss") {after : Disk}
    (h : Stores .default "/c" pair entry after) :
    isValid after "/c" "/s/main.scss" Transform.tag = .ok (true, []) := by
  have hother : pair.lexical entry.path ≠ entryLocation pair "/c" entry.path := by
    rw [hpath]
    exact lexical_main_ne
  have hold : ∀ file ∈ entry.path :: entry.dependencies, ∀ node,
      pair.find file = .ok node → node.stamp.units < pair.clock.units := by
    intro file _ node hfind
    have hstamps : ∀ entry ∈ pair.nodes, entry.2.stamp.units < pair.clock.units := by decide
    obtain ⟨location, -, hnode⟩ := Disk.find_eq_ok_iff.1 hfind
    exact hstamps _ (Table.mem_of_get? hnode)
  rw [← hpath]
  exact isValid_of_stores wellFormed_pair h hother hold

/-- Behind the first pass the entry may be used, and it says what another pass would find. -/
theorem isValid_pair : ∃ d, pair.WellFormed ∧
    (∀ source, pair.node? (entryLocation pair "/c" source) = none) ∧
    Run .default "/c" ["/s/main.scss"] pair d ∧
    isValid d "/c" "/s/main.scss" Transform.tag = .ok (true, []) ∧
    ∃ entry text, readEntry d "/c" "/s/main.scss" Transform.tag = .ok entry ∧
      d.readText "/s/main.scss" = .ok text ∧
      Dependency.dependencies d (searchFor .default "/s/main.scss") "/s/main.scss" text =
        .ok entry.dependencies := by
  obtain ⟨d, hwritten⟩ := exists_writeEntry_pair
  obtain ⟨pass', hpass, rfl, hstores⟩ := exists_firstPass_run hwritten
  have hrun : Run .default "/c" ["/s/main.scss"] pair pass'.session.disk :=
    .single (.transform rfl (List.mem_singleton_self _) rfl hpass)
  have hvalid := isValid_of_stores_pair rfl hstores
  refine ⟨_, wellFormed_pair, node?_pair, hrun, hvalid, ?_⟩
  rcases isValid_sound rfl wellFormed_pair node?_pair hrun hvalid with
    ⟨source, hsource, hne, -⟩ | ⟨_, entry, _, -, -, -, -, hread, -, text, htext, hfound⟩
  · exact absurd (List.mem_singleton.1 hsource) hne
  · exact ⟨entry, text, hread, htext, hfound⟩

end StyleBundle.Cache
