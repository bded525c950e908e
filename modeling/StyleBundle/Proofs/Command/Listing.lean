import StyleBundle.Proofs.Cache.History
import StyleBundle.Proofs.Cache.Repeated
import StyleBundle.Proofs.Command.Ending
import StyleBundle.Proofs.Command.Line

/-!
# Listings and records

The files that are listed for a stylesheet are those that a compile records for it, if the compile
searches the same directories and takes the stylesheet for the dialect that its suffix tells. By
default a compile takes every stylesheet for the braced dialect, so that for an indented one it may
record other files than are listed.
-/

namespace StyleBundle

/-! ## What a compile records -/

namespace Transform

variable {settings : Settings} {p : Project} {d : Disk} {source text : String} {pass : Pass}
  {found : List String}

/-- A pass that comes to its source: nothing is loaded, there is a compiler, and the cache has no
entry that may be used. -/
structure Opens (settings : Settings) (p : Project) (d : Disk) (source : String) (pass : Pass) :
    Prop where
  /-- The pass is on the disk. -/
  disk_eq : pass.session.disk = d
  /-- The stylesheet is that of the source. -/
  path_eq : pass.sheet.path = source
  /-- The stylesheet has no text yet. -/
  contents_eq : pass.sheet.contents = none
  /-- There is a compiler. -/
  compiler : ∃ compiler, compilerOf pass = .ok compiler
  /-- The cache has no entry that may be used. -/
  misses : Misses settings p d source

/-- A compile records what the text of its source depends on, however it ends. -/
theorem styleDependencies_transform (himporting : settings.importing = .off)
    (hresources : settings.resources = []) (hopens : Opens settings p d source pass)
    (htext : d.readText source = .ok text) (hne : text ≠ "")
    (hfound : Dependency.dependencies d (searchFor settings source) source text = .ok found) :
    ((transform settings p).run pass).2.sheet.styleDependencies = some found := by
  obtain ⟨rfl, rfl, hfresh, hcompiler, hmiss⟩ := hopens
  have hnone : resourcesOf settings pass.session = .ok none := by
    rw [resourcesOf, hresources, List.isEmpty_nil, if_pos rfl]
  have hmakes : Makes settings p pass text none found :=
    ⟨.inr ⟨hfresh, htext⟩, hne, hcompiler, hnone, by rwa [searchOf_requestFor himporting]⟩
  obtain ⟨mid, hprepare, hawaits⟩ := exists_prepare_run hmakes hmiss
  rw [(Prod.mk.inj (Prod.mk.inj (decided_of_prepare hprepare)).2).2, hawaits.dependencies]

end Transform

namespace Command

variable {s : Session} {verbose : Bool} {arguments includePaths : List String}
  {file source text : String} {found : List String}

/-! ## What a listing prints -/

/-- A listing prints what the text of the source depends on. -/
theorem run_of_dependencies (hd : s.disk.WellFormed) (hsource : IsSource s.disk file source)
    (htext : s.disk.readText source = .ok text)
    (hparse : Invocation.parse arguments = .ok ⟨verbose, some (.dependencies includePaths, file)⟩)
    (hfound : Dependency.dependencies s.disk
      (listingSearch includePaths (Path.parent source) source) source text = .ok found) :
    (run s arguments).ending = .ok done ∧ (run s arguments).output = listing found := by
  obtain ⟨r, hrun, houtput⟩ := exists_listDependencies_run hd hsource htext verbose includePaths
  rw [hfound] at hrun
  rw [run_of_parse hparse hrun]
  exact ⟨rfl, houtput found hfound⟩

/-- A listing that is done has printed what the text of its source depends on. -/
theorem exists_lists_of_run (hd : s.disk.WellFormed)
    (hparse : Invocation.parse arguments = .ok ⟨verbose, some (.dependencies includePaths, file)⟩)
    (hdone : (run s arguments).ending = .ok done) :
    ∃ source text found r, Lists s includePaths file source text found r ∧
      (run s arguments).output = r.output := by
  rcases listDependencies_cases hd verbose includePaths file with
    ⟨source, text, found, r, hlists, hrun⟩ | hfails
  · exact ⟨source, text, found, r, hlists, by rw [run_of_parse hparse hrun]⟩
  · rw [run_of_parse hparse rfl] at hdone
    exact absurd hdone hfails.ne_done

/-- A line that asks for a listing and not for help is taken if it ends well. -/
theorem parse_listingLine_of_done
    (hhelp : ∀ text, Invocation.parse (listingLine file includePaths) ≠ .error (.help text))
    (hdone : (run s (listingLine file includePaths)).ending = .ok done) :
    Invocation.parse (listingLine file includePaths) =
      .ok ⟨false, some (.dependencies includePaths, file)⟩ := by
  cases hparse : Invocation.parse (listingLine file includePaths) with
  | ok invocation => rw [eq_of_parse_listingLine hparse]
  | error stop =>
    cases stop with
    | help text => exact absurd hparse (hhelp text)
    | misuse text =>
      rw [run, hparse] at hdone
      simp [mistaken, done] at hdone

/-- Default settings but for the directories that are searched and for the dialect, which is the one
that the suffix of the source tells. -/
def listingSettings (includePaths : List String) (source : String) : Settings :=
  { Settings.default with
    includePaths
    indentedSyntax := decide (Path.suffix source = ".sass") }

/-- A listing searches like a compile that takes the source for what its suffix tells. -/
theorem searchFor_listingSettings (includePaths : List String) (source : String) :
    Transform.searchFor (listingSettings includePaths source) source =
      listingSearch includePaths (Path.parent source) source := by
  simp [Transform.searchFor, listingSearch, listingSettings]

/-- If a line that lists the dependencies of a file, with some directories to search and without a
word that asks for help, ends well, it has printed a line for each of the files that a compile of
the source records. The compile has default settings but for the directories and the dialect, which
is the indented one for a source with its suffix. -/
theorem run_listingLine (hd : s.disk.WellFormed)
    (hhelp : ∀ text, Invocation.parse (listingLine file includePaths) ≠ .error (.help text))
    (hdone : (run s (listingLine file includePaths)).ending = .ok done) :
    ∃ source text found, IsSource s.disk file source ∧
      s.disk.readText source = .ok text ∧
      (run s (listingLine file includePaths)).output = listing found ∧
      (text ≠ "" → ∀ p pass,
        Transform.Opens (listingSettings includePaths source) p s.disk source pass →
        ((Transform.transform (listingSettings includePaths source) p).run
          pass).2.sheet.styleDependencies = some found) := by
  obtain ⟨source, text, found, r, hlists, houtput⟩ :=
    exists_lists_of_run hd (parse_listingLine_of_done hhelp hdone) hdone
  refine ⟨source, text, found, hlists.isSource, hlists.text_eq, houtput.trans hlists.output_eq, ?_⟩
  intro hne p pass hopens
  refine Transform.styleDependencies_transform rfl rfl hopens hlists.text_eq hne ?_
  rw [searchFor_listingSettings]
  exact hlists.dependencies_eq

/-! ## Two dialects -/

/-- A disk on which an import leads to files of both dialects in a directory that is searched. -/
def shelf : Disk where
  nodes := [([], .directory ⟨0⟩), (["s"], .directory ⟨0⟩), (["s", "lib"], .directory ⟨0⟩),
    (["s", "lib", "_a.scss"], .file [] ⟨0⟩), (["s", "lib", "a.sass"], .file [] ⟨0⟩),
    (["s", "main.sass"], .file (Text.Utf8.encode "@import 'a';".toList) ⟨0⟩),
    (["s", "main.scss"], .file (Text.Utf8.encode "@import 'a';".toList) ⟨0⟩)]
  home := ["s"]
  clock := ⟨1⟩

theorem wellFormed_shelf : shelf.WellFormed :=
  .of_nodes (by decide +kernel) (by decide +kernel) (by decide +kernel)

/-- The project of the stylesheets on the disk. -/
def shelfProject : Project := Project.rooted "/s" none none

/-- A pass over a stylesheet on the disk. -/
def shelfPass (source : String) : Transform.Pass :=
  ⟨refusing shelf, none, .fresh source (Path.fileName source), []⟩

/-- The pass comes to its source, since the project has no cache. -/
theorem opens_shelfPass (settings : Settings) (source : String) :
    Transform.Opens settings shelfProject shelf source (shelfPass source) where
  disk_eq := rfl
  path_eq := rfl
  contents_eq := rfl
  compiler := ⟨_, rfl⟩
  misses := fun _ _ hcache => by cases hcache

/-- With the directory to search, the braced stylesheet depends on the braced file there. -/
theorem dependencies_braced_shelf : Dependency.dependencies shelf
    (listingSearch ["lib"] "/s" "/s/main.scss") "/s/main.scss" "@import 'a';" =
      .ok ["/s/lib/_a.scss"] :=
  Cache.dependencies_of_empty wellFormed_shelf rfl (by decide +kernel) (by decide)
    (by decide +kernel)

/-- The listing of the braced stylesheet is what a compile records. -/
theorem run_listingLine_shelf : shelf.WellFormed ∧
    (∀ text, Invocation.parse (listingLine "main.scss" ["lib"]) ≠ .error (.help text)) ∧
    (run (refusing shelf) (listingLine "main.scss" ["lib"])).ending = .ok done ∧
    (run (refusing shelf) (listingLine "main.scss" ["lib"])).output =
      listing ["/s/lib/_a.scss"] ∧
    ∃ found, (run (refusing shelf) (listingLine "main.scss" ["lib"])).output = listing found ∧
      ((Transform.transform (listingSettings ["lib"] "/s/main.scss") shelfProject).run
        (shelfPass "/s/main.scss")).2.sheet.styleDependencies = some found := by
  have hparse : Invocation.parse (listingLine "main.scss" ["lib"]) =
      .ok ⟨false, some (.dependencies ["lib"], "main.scss")⟩ := by rfl
  have hhelp : ∀ text, Invocation.parse (listingLine "main.scss" ["lib"]) ≠
      .error (.help text) := by
    intro text hstop
    cases hparse.symm.trans hstop
  have hsource : IsSource shelf "main.scss" "/s/main.scss" :=
    ⟨by decide +kernel, by decide +kernel⟩
  have htext : shelf.readText "/s/main.scss" = .ok "@import 'a';" := by decide +kernel
  obtain ⟨hdone, houtput⟩ := run_of_dependencies (s := refusing shelf) wellFormed_shelf hsource
    htext hparse dependencies_braced_shelf
  obtain ⟨source, text, found, hsource', htext', hlisted, hrecorded⟩ :=
    run_listingLine (s := refusing shelf) wellFormed_shelf hhelp hdone
  obtain rfl : source = "/s/main.scss" :=
    Except.ok.inj (hsource'.resolve_eq.symm.trans hsource.resolve_eq)
  obtain rfl : text = "@import 'a';" := Except.ok.inj (htext'.symm.trans htext)
  exact ⟨wellFormed_shelf, hhelp, hdone, houtput, found, hlisted,
    hrecorded (by decide) shelfProject _ (opens_shelfPass _ _)⟩

/-- With default settings but for the directory, a compile of the indented stylesheet records the
braced file, while the indented one is listed. -/
theorem exists_listing_not_recorded : shelf.WellFormed ∧
    IsSource shelf "main.sass" "/s/main.sass" ∧
    shelf.readText "/s/main.sass" = .ok "@import 'a';" ∧
    (run (refusing shelf) (listingLine "main.sass" ["lib"])).ending = .ok done ∧
    (run (refusing shelf) (listingLine "main.sass" ["lib"])).output = "/s/lib/a.sass\n" ∧
    Transform.Opens { Settings.default with includePaths := ["lib"] } shelfProject shelf
      "/s/main.sass" (shelfPass "/s/main.sass") ∧
    ((Transform.transform { Settings.default with includePaths := ["lib"] } shelfProject).run
      (shelfPass "/s/main.sass")).2.sheet.styleDependencies = some ["/s/lib/_a.scss"] := by
  have hparse : Invocation.parse (listingLine "main.sass" ["lib"]) =
      .ok ⟨false, some (.dependencies ["lib"], "main.sass")⟩ := by rfl
  have hsource : IsSource shelf "main.sass" "/s/main.sass" :=
    ⟨by decide +kernel, by decide +kernel⟩
  have htext : shelf.readText "/s/main.sass" = .ok "@import 'a';" := by decide +kernel
  have hlisted : Dependency.dependencies shelf (listingSearch ["lib"] "/s" "/s/main.sass")
      "/s/main.sass" "@import 'a';" = .ok ["/s/lib/a.sass"] :=
    Cache.dependencies_of_empty wellFormed_shelf rfl (by decide +kernel) (by decide)
      (by decide +kernel)
  obtain ⟨hdone, houtput⟩ := run_of_dependencies (s := refusing shelf) wellFormed_shelf hsource
    htext hparse hlisted
  have hopens := opens_shelfPass { Settings.default with includePaths := ["lib"] } "/s/main.sass"
  have hrecorded : Dependency.dependencies shelf
      (Transform.searchFor { Settings.default with includePaths := ["lib"] } "/s/main.sass")
      "/s/main.sass" "@import 'a';" = .ok ["/s/lib/_a.scss"] :=
    Cache.dependencies_of_empty wellFormed_shelf rfl (by decide +kernel) (by decide)
      (by decide +kernel)
  exact ⟨wellFormed_shelf, hsource, htext, hdone, houtput, hopens,
    Transform.styleDependencies_transform rfl rfl hopens htext (by decide) hrecorded⟩

end Command

end StyleBundle
