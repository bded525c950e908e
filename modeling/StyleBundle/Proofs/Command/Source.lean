import StyleBundle.Command.Run
import StyleBundle.Proofs.Disk.Resolve

/-!
# The source of a command

A command resolves the path that it is given and makes a stylesheet of the source there. The
project of a source has its home at the source's directory or above it, so that the stylesheet
always belongs to it.
-/

namespace StyleBundle.Command

variable {d : Disk} {file source : String} {cache : Option String}

/-- A directory above a source is the home of a project that the source belongs to. -/
theorem exists_inProject (hd : d.WellFormed) {location base : Location} {p : Project}
    (hnames : ∀ name ∈ location, Path.IsName name) (hnul : ∀ name ∈ location, '\x00' ∉ name.toList)
    (hbase : base <+: location) (hhome : p.home = Disk.pathOf base) : ∃ bundlePath,
      Sheet.inProject d p (Disk.pathOf location) =
        .ok (.fresh (Disk.pathOf location) bundlePath) := by
  have habove : ∀ name ∈ base, Path.IsName name :=
    fun name hname => hnames name (hbase.subset hname)
  have hsource := hd.resolve_pathOf hnames hnul
  have hresolve := hd.resolve_pathOf habove fun name hname => hnul name (hbase.subset hname)
  have hbelow := Disk.below?_pathOf hnames habove
  rw [if_pos hbase] at hbelow
  rw [Sheet.inProject, hhome, hsource, hresolve]
  simp only [hbelow]
  exact ⟨_, rfl⟩

/-- A source belongs to the project with its own directory as home. -/
theorem exists_inProject_rooted (hd : d.WellFormed) (h : d.resolve file = .ok source) :
    ∃ bundlePath, Sheet.inProject d (Project.rooted (Path.parent source) none none) source =
      .ok (.fresh source bundlePath) := by
  obtain ⟨hnul, rfl⟩ := hd.resolve_eq_ok_iff.1 h
  have hnames := hd.isName_of_mem_lexical file
  refine exists_inProject hd hnames (hd.nul_not_mem_lexical hnul) (List.dropLast_prefix _) ?_
  rw [Project.rooted, Path.tidy_parent, Disk.parent_pathOf hnames]

/-- Taking an extension keeps the rest of a project. -/
theorem exists_allow_eq (p : Project) (extension : String) :
    ∃ extensions, p.allow extension = { p with extensions } := by
  unfold Project.allow
  split
  · exact ⟨p.extensions, rfl⟩
  · exact ⟨_, rfl⟩

/-- Registering the transform keeps the rest of a project. -/
theorem exists_register_eq (p : Project) :
    ∃ extensions, Plugin.register p = { p with extensions } := by
  obtain ⟨first, hfirst⟩ := exists_allow_eq p Import.bracedExtension
  obtain ⟨second, hsecond⟩ :=
    exists_allow_eq { p with extensions := first } Import.indentedExtension
  refine ⟨second, ?_⟩
  rw [Plugin.register, Plugin.extensions, List.foldl_cons, List.foldl_cons, List.foldl_nil, hfirst,
    hsecond]

theorem cache_register (p : Project) : (Plugin.register p).cache = p.cache := by
  obtain ⟨extensions, h⟩ := exists_register_eq p
  rw [h]

theorem home_register (p : Project) : (Plugin.register p).home = p.home := by
  obtain ⟨extensions, h⟩ := exists_register_eq p
  rw [h]

/-- The project of a source keeps its cache where it is told to. -/
theorem cache_projectOf (d : Disk) (source : String) (cache : Option String) :
    (projectOf d source cache).cache = cache := by
  simp only [projectOf, cache_register]

/-- The home of a project is the working directory or the source's own. -/
theorem home_projectOf (d : Disk) (source : String) (cache : Option String) :
    (projectOf d source cache).home =
      Path.tidy (if (Path.below? d.homePath source).any (!·.isEmpty) then d.homePath
        else Path.parent source) := by
  simp only [projectOf, home_register, Project.rooted]

/-- A source belongs to its project. -/
theorem exists_inProject_projectOf (hd : d.WellFormed) (h : d.resolve file = .ok source)
    (cache : Option String) : ∃ bundlePath,
      Sheet.inProject d (projectOf d source cache) source = .ok (.fresh source bundlePath) := by
  obtain ⟨hnul, rfl⟩ := hd.resolve_eq_ok_iff.1 h
  have hnames := hd.isName_of_mem_lexical file
  have hhome : ∀ name ∈ d.home, Path.IsName name := fun name hname => (hd.home_names name hname).1
  have hproject := home_projectOf d (Disk.pathOf (d.lexical file)) cache
  split at hproject
  next hbelow =>
    have hprefix : d.home <+: d.lexical file := by
      by_contra hapart
      rw [Disk.homePath, Disk.below?_pathOf hnames hhome, if_neg hapart] at hbelow
      cases hbelow
    exact exists_inProject hd hnames (hd.nul_not_mem_lexical hnul) hprefix
      (hproject.trans (Disk.tidy_pathOf hhome))
  next =>
    rw [Path.tidy_parent, Disk.parent_pathOf hnames] at hproject
    exact exists_inProject hd hnames (hd.nul_not_mem_lexical hnul) (List.dropLast_prefix _) hproject

end StyleBundle.Command
