import StyleBundle.Proofs.Cache.History
import StyleBundle.Proofs.Dependency.Closure

/-!
# What an entry records

An entry records the files that the imports of the stylesheet's own text reach. The text that is
compiled may be another one: that of the resources stands before the stylesheet's, and the settings
may hold one to be compiled instead. Neither is searched for imports, so that the record covers what
is compiled only where the settings have none of them.
-/

namespace StyleBundle.Cache

open Transform (prepare submit settle searchOf usesCache)

variable {settings : Settings} {p : Project} {directory : String} {request : Request}
  {output : Output} {pass mid sent pass' : Transform.Pass}

/-- The entry that a pass stores records exactly the files that the stylesheet's text reaches. Where
the settings have neither resources nor a text to be compiled instead, that is the text that is
compiled, and every file that the compiled text reaches is recorded, but for the source itself. -/
theorem mem_recorded_iff (hcache : p.cache = some directory) (huses : usesCache settings p = true)
    (himporting : settings.importing = .off) (hdisk : pass.session.disk.WellFormed)
    (hprepare : (prepare settings p).run pass = (.ok (some request), mid))
    (hsubmit : (submit request).run mid = (.ok ⟨none, some output⟩, sent))
    (hsettle : (settle settings p ⟨none, some output⟩).run sent = (.ok (), pass')) :
    ∃ entry text, readEntry pass'.session.disk directory pass.sheet.path Transform.tag = .ok entry ∧
      mid.sheet.contents = some text ∧
      (∀ file, file ∈ entry.dependencies ↔ file ≠ pass.sheet.path ∧ Dependency.Reaches
        pass.session.disk (searchOf request) pass.sheet.path text file) ∧
      (settings.resources = [] → settings.data = none → request.data = text ∧
        ∀ file, file ≠ pass.sheet.path → Dependency.Reaches pass.session.disk (searchOf request)
          pass.sheet.path request.data file → file ∈ entry.dependencies) := by
  obtain ⟨text, given, found, rfl, hawaits, hcaches⟩ :=
    Transform.exists_caches_of_runs hcache huses hprepare hsubmit hsettle
  have hsteady : (searchOf (Transform.requestFor settings p pass.sheet text given)).IsSteady
      pass.session.disk := by
    intro hook hhook
    rw [Transform.searchOf_requestFor himporting] at hhook
    cases hhook
  have hlisted := Dependency.mem_dependencies_iff hdisk hsteady hcaches.makes.dependencies
  have hread := readEntry_of_caches hdisk hcaches
  refine ⟨_, text, hread, hawaits.contents, hlisted, ?_⟩
  intro hresources hdata
  have hgiven : given = none := by
    have hnone := hcaches.makes.resources
    rw [Transform.resourcesOf, hresources] at hnone
    exact (Except.ok.inj hnone).symm
  have hsame : (Transform.requestFor settings p pass.sheet text given).data = text := by
    rw [Transform.data_requestFor, hdata, hgiven]
    simp
  refine ⟨hsame, ?_⟩
  intro file hne hreach
  rw [hsame] at hreach
  exact (hlisted file).2 ⟨hne, hreach⟩

/-- The entry of the first pass records what the one import of the stylesheet leads to. -/
theorem mem_recorded_pair : ∃ mid sent pass' request,
    (prepare .default cachingProject).run firstPass = (.ok (some request), mid) ∧
    (submit request).run mid = (.ok ⟨none, some ⟨"", none⟩⟩, sent) ∧
    (settle .default cachingProject ⟨none, some ⟨"", none⟩⟩).run sent = (.ok (), pass') ∧
    ∃ entry, readEntry pass'.session.disk "/c" "/s/main.scss" Transform.tag = .ok entry ∧
      Dependency.Reaches pair (searchOf request) "/s/main.scss" request.data "/s/_a.scss" ∧
      "/s/_a.scss" ∈ entry.dependencies := by
  obtain ⟨d, hwritten⟩ := exists_writeEntry_pair
  obtain ⟨mid, sent, hprepare, -, hsubmit, hsettle⟩ := (caches_firstPass hwritten).exists_runs
  obtain ⟨entry, text, hread, -, -, hcovers⟩ :=
    mem_recorded_iff rfl rfl rfl wellFormed_pair hprepare hsubmit hsettle
  obtain ⟨-, hreached⟩ := hcovers rfl rfl
  have himport : Dependency.Imports pair (searchOf (Transform.requestFor .default cachingProject
      firstPass.sheet "@import 'a';" none)) "/s/main.scss" "@import 'a';" "/s/main.scss"
      "/s/_a.scss" := by
    rw [Transform.searchOf_requestFor rfl]
    exact ⟨_, rfl, ⟨"@import 'a';", "a"⟩, by simp [Dependency.statements_single],
      by decide, "a", rfl, by decide +kernel⟩
  have hreach := Relation.ReflTransGen.single himport
  exact ⟨mid, sent, _, _, hprepare, hsubmit, hsettle, entry, hread, hreach,
    hreached "/s/_a.scss" (by decide) hreach⟩

/-! ## What is not recorded -/

/-- A disk on which the resources of a stylesheet import another one. -/
def themed : Disk where
  nodes := [([], .directory ⟨0⟩), (["s"], .directory ⟨0⟩),
    (["s", "_a.scss"], .file [] ⟨0⟩),
    (["s", "main.scss"], .file (Text.Utf8.encode ".b".toList) ⟨0⟩),
    (["s", "theme.scss"], .file (Text.Utf8.encode "@import 'a';".toList) ⟨0⟩)]
  home := ["s"]
  clock := ⟨1⟩

theorem wellFormed_themed : themed.WellFormed :=
  .of_nodes (by decide +kernel) (by decide +kernel) (by decide +kernel)

/-- Settings with the resources. -/
def themedSettings : Settings := { Settings.default with resources := ["/s/theme.scss"] }

/-- A pass over the stylesheet with the resources. -/
def themedPass : Transform.Pass := { firstPass with session := ⟨themed, none, none, none⟩ }

/-- The text of the resources. -/
def themeText : String := "@import 'a';" ++ "\n"

theorem readText_theme : themed.readText "/s/theme.scss" = .ok "@import 'a';" := by
  have hbytes : themed.readBytes "/s/theme.scss" =
      .ok (Text.Utf8.encode "@import 'a';".toList) := by decide +kernel
  rw [Disk.readText, hbytes]
  exact Disk.textOf_encode (by decide)

/-- The stylesheet itself imports nothing. -/
theorem makes_themed : Transform.Makes themedSettings cachingProject themedPass ".b"
    (some themeText) [] := by
  have hbytes : themed.readBytes "/s/main.scss" = .ok (Text.Utf8.encode ".b".toList) := by
    decide +kernel
  have htext : themed.readText "/s/main.scss" = .ok ".b" := by
    rw [Disk.readText, hbytes]
    exact Disk.textOf_encode (by decide)
  have hresources : Transform.resourcesOf themedSettings themedPass.session =
      .ok (some themeText) := by
    have htexts : Session.readTexts themed ["/s/theme.scss"] = .ok ["@import 'a';"] := by
      simp only [Session.readTexts, readText_theme]
    simp only [Transform.resourcesOf, Session.loadResources, themedPass, themedSettings, htexts,
      List.isEmpty_cons, Bool.false_eq_true, if_false]
    rfl
  have hnone : Dependency.references "/s/main.scss" ".b" = [] := by
    rw [Dependency.references, Import.statements, Import.scan_eq_nil_of_not_mem (by decide)]
    rfl
  refine ⟨.inr ⟨rfl, htext⟩, by decide, ⟨emptyCompiler, rfl⟩, hresources, ?_⟩
  change Dependency.dependencies themed _ "/s/main.scss" ".b" = _
  rw [Dependency.dependencies_eq_walk, hnone, Dependency.walk]

/-- The text that is compiled imports what that of the resources does. -/
theorem reaches_themed {request : Request}
    (h : request = Transform.requestFor themedSettings cachingProject themedPass.sheet ".b"
      (some themeText)) :
    request.data = themeText ++ ".b" ∧ Dependency.Reaches themed (searchOf request) "/s/main.scss"
      request.data "/s/_a.scss" := by
  have hdata : request.data = themeText ++ ".b" := by
    rw [h, Transform.data_requestFor]
    rfl
  have hstatements : Import.statements (themeText ++ ".b") = [⟨"@import 'a';", "a"⟩] :=
    Import.statements_of_parse? "\n.b".toList (by decide) (by decide) (by decide)
  refine ⟨hdata, .single ?_⟩
  rw [hdata, h, Transform.searchOf_requestFor rfl]
  exact ⟨_, rfl, ⟨"@import 'a';", "a"⟩, by simp [hstatements], by decide, "a", rfl,
    by decide +kernel⟩

/-- A pass that compiles successfully may store an entry that records neither a file of the
resources, whose text is compiled, nor a file that this text imports. -/
theorem exists_unrecorded_file : ∃ request mid sent pass' entry,
    (prepare themedSettings cachingProject).run themedPass = (.ok (some request), mid) ∧
    (submit request).run mid = (.ok ⟨none, some ⟨"", none⟩⟩, sent) ∧
    (settle themedSettings cachingProject ⟨none, some ⟨"", none⟩⟩).run sent = (.ok (), pass') ∧
    readEntry pass'.session.disk "/c" "/s/main.scss" Transform.tag = .ok entry ∧
    themed.readText "/s/theme.scss" = .ok "@import 'a';" ∧
    request.data = "@import 'a';" ++ "\n" ++ ".b" ∧ "/s/theme.scss" ∉ entry.dependencies ∧
    Dependency.Reaches themed (searchOf request) "/s/main.scss" request.data "/s/_a.scss" ∧
    "/s/_a.scss" ∉ entry.dependencies := by
  let entry : Entry := ⟨formatVersion, "/s/main.scss", Transform.tag, "", none, []⟩
  obtain ⟨d, hwritten⟩ : ∃ d, writeEntry themed "/c" entry = .ok d :=
    exists_writeEntry_eq_ok (by decide +kernel)
  have hmisses : Transform.Misses themedSettings cachingProject themed "/s/main.scss" := by
    intro _ directory hcache
    obtain rfl := Option.some.inj hcache
    have hprobe : themed.probe (entryPath "/c" "/s/main.scss" Transform.tag) = .ok none := by
      decide +kernel
    exact ⟨[], by simp only [isValid, isNewer, hprobe]⟩
  have hcaches : Transform.Caches themedSettings cachingProject themedPass "/c" ".b"
      (some themeText) [] ⟨"", none⟩ d :=
    ⟨rfl, rfl, hmisses, makes_themed, ⟨emptyCompiler, rfl, rfl⟩, hwritten⟩
  obtain ⟨mid, sent, hprepare, -, hsubmit, hsettle⟩ := hcaches.exists_runs
  have hread : readEntry d "/c" entry.path entry.tag = .ok entry :=
    readEntry_of_writeEntry wellFormed_themed entry rfl hwritten
  obtain ⟨hdata, hreach⟩ := reaches_themed rfl
  exact ⟨_, mid, sent, _, entry, hprepare, hsubmit, hsettle, hread, readText_theme, hdata,
    List.not_mem_nil, hreach, List.not_mem_nil⟩

end StyleBundle.Cache
