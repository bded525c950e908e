import StyleBundle.Proofs.Dependency.PlainLookup

/-!
# Flattening and the walk agree

Flattening looks for targets below a root, reads them as often as they are imported, and falls back
to the other dialect; the walk probes candidates beside the importing file and opens each file once.
In a plain tree both follow the same links between the same files, so that flattening that comes to
an end has opened, besides the entry's file, exactly the files that the walk finds.
-/

namespace StyleBundle.Import

open Dependency (plainSearchWith)
open StyleBundle.Path (IsMark IsName)
open Relation (ReflTransGen TransGen)

variable {d : Disk} {root entry path other text : String} {location : Location}

/-- A chain that has to end does not come back to where it started. -/
theorem not_transGen_of_acc {α : Type} {r : α → α → Prop} {a : α} (h : Acc (Function.swap r) a) :
    ¬ TransGen r a a := by
  induction h with
  | intro a _ ih =>
    intro hcycle
    obtain ⟨b, hab, hba⟩ := TransGen.head'_iff.1 hcycle
    exact ih b hab (TransGen.tail' hba hab)

/-! ## What flattening reaches -/

/-- Everything that flattening reaches in a plain tree can be read, and its targets are plain. -/
structure IsPlainlyLinked (d : Disk) (root entry : String) : Prop where
  /-- The tree is plain. -/
  tree : IsPlainTree d root
  /-- No read ends the work. -/
  readable : ∀ path, ReflTransGen (Reads d root bracedExtension) entry path →
    ∃ text, sourceText d bracedExtension path = .ok text
  /-- All targets are plain. -/
  targets : ∀ path, ReflTransGen (Reads d root bracedExtension) entry path →
    ∀ text, sourceText d bracedExtension path = .ok text →
      ∀ statement ∈ statements text, IsPlainTarget statement.target

/-- A path for a target is that of the file that it serves, and opens that file. -/
structure Finds (d : Disk) (root path : String) (location : Location) : Prop
    extends Serves d root path location where
  /-- The path is that of the file. -/
  spelled : ∃ mark, IsMarkFor root mark ∧ path = mark ++ Path.ofSegments location
  /-- The path itself is opened. -/
  direct : openedFor? d bracedExtension path = some path

/-- A path for which nothing is opened. -/
def IsSilent (d : Disk) (path : String) : Prop :=
  openedFor? d bracedExtension path = none ∧ sourceText d bracedExtension path = .ok ""

theorem IsSilent.not_reads (h : IsSilent d path) : ¬ Reads d root bracedExtension path other := by
  rintro ⟨text, htext, statement, hstatement, -⟩
  obtain rfl := Except.ok.inj (h.2.symm.trans htext)
  rw [statements, scan_eq_nil_of_not_mem (by simp)] at hstatement
  cases hstatement

/-- Nothing is read where nothing is opened. -/
theorem eq_empty_of_openedFor? (hopened : openedFor? d bracedExtension path = none)
    (htext : sourceText d bracedExtension path = .ok text) : text = "" := by
  rw [sourceText] at htext
  rw [openedFor?] at hopened
  cases hread : read d (entryPath bracedExtension path) with
  | direct found => simp [hread, Reading.opened?] at hopened
  | swapped found => simp [hread, Reading.opened?] at hopened
  | unresolved => simpa [hread, Reading.text, eq_comm] using htext
  | fatal failure swapped => simp [hread, Reading.text] at htext

namespace IsPlainlyLinked

/-- The path for a target of a stylesheet finds a file that the stylesheet's file links, or nothing is
opened for it. -/
theorem finds_or_silent (h : IsPlainlyLinked d root entry)
    (hpath : ReflTransGen (Reads d root bracedExtension) entry path)
    (hserves : Serves d root path location) (hreads : Reads d root bracedExtension path other) :
    (∃ next, Links d location next ∧ Finds d root other next) ∨ IsSilent d other := by
  obtain ⟨text, htext⟩ := h.readable other (hpath.tail hreads)
  obtain ⟨content, hcontent, statement, hstatement, rfl⟩ := hreads
  obtain ⟨content', hcontent', hat⟩ := hserves.text
  obtain rfl := Except.ok.inj (hcontent.symm.trans hcontent')
  obtain ⟨mark, hmark, hspelled, houtcome, hnext⟩ := hserves.step h.tree
    (h.targets path hpath content hcontent statement hstatement) (target_ne_empty hstatement) htext
  cases houtcome with
  | found hopened hstands =>
    obtain ⟨bytes, changed, hnode, -⟩ := hstands
    exact .inl ⟨_, ⟨⟨content, hat, statement, hstatement, rfl⟩, bytes, changed, hnode⟩,
      { toServes := hnext bytes changed hnode
        spelled := ⟨mark, hmark, hspelled⟩
        direct := hopened }⟩
  | missing hopened hempty _ => exact .inr ⟨hopened, hempty ▸ htext⟩

/-- What the file of a stylesheet links is found by the path for a target of the stylesheet. -/
theorem exists_finds (h : IsPlainlyLinked d root entry)
    (hpath : ReflTransGen (Reads d root bracedExtension) entry path)
    (hserves : Serves d root path location) {next : Location} (hlinks : Links d location next) :
    ∃ other, Reads d root bracedExtension path other ∧ Finds d root other next := by
  obtain ⟨⟨content, hat, statement, hstatement, rfl⟩, bytes, changed, hnode⟩ := hlinks
  obtain ⟨content', hcontent, hat'⟩ := hserves.text
  obtain rfl := hat.unique hat'
  have hreads : Reads d root bracedExtension path
      (targetPath root bracedExtension path statement.target) :=
    ⟨content, hcontent, statement, hstatement, rfl⟩
  obtain ⟨text, htext⟩ := h.readable _ (hpath.tail hreads)
  obtain ⟨mark, hmark, hspelled, houtcome, hnext⟩ := hserves.step h.tree
    (h.targets path hpath content hcontent statement hstatement) (target_ne_empty hstatement) htext
  cases houtcome with
  | found hopened _ =>
    exact ⟨_, hreads,
      { toServes := hnext bytes changed hnode
        spelled := ⟨mark, hmark, hspelled⟩
        direct := hopened }⟩
  | missing _ _ habsent => exact absurd hnode (habsent bytes changed)

/-- Behind the entry, flattening reaches paths that find linked files, and paths for which nothing is
opened. -/
theorem finds_or_silent_of_transGen (h : IsPlainlyLinked d root entry)
    (hserves : Serves d root entry location)
    (hreach : TransGen (Reads d root bracedExtension) entry path) :
    (∃ next, TransGen (Links d) location next ∧ Finds d root path next) ∨ IsSilent d path := by
  induction hreach with
  | single hreads =>
    rcases h.finds_or_silent .refl hserves hreads with ⟨next, hlinks, hfinds⟩ | hsilent
    · exact .inl ⟨next, .single hlinks, hfinds⟩
    · exact .inr hsilent
  | tail hreach hreads ih =>
    rcases ih with ⟨here, hchain, hfinds⟩ | hsilent
    · rcases h.finds_or_silent hreach.to_reflTransGen hfinds.toServes hreads with
        ⟨next, hlinks, hnext⟩ | hsilent
      · exact .inl ⟨next, hchain.tail hlinks, hnext⟩
      · exact .inr hsilent
    · exact absurd hreads hsilent.not_reads

/-- Every file that is linked behind the entry's is found by a path that flattening reaches. -/
theorem exists_finds_of_transGen (h : IsPlainlyLinked d root entry)
    (hserves : Serves d root entry location) {next : Location}
    (hchain : TransGen (Links d) location next) :
    ∃ path, TransGen (Reads d root bracedExtension) entry path ∧ Finds d root path next := by
  induction hchain with
  | single hlinks =>
    obtain ⟨path, hreads, hfinds⟩ := h.exists_finds .refl hserves hlinks
    exact ⟨path, .single hreads, hfinds⟩
  | tail _ hlinks ih =>
    obtain ⟨path, hreach, hfinds⟩ := ih
    obtain ⟨other, hreads, hnext⟩ :=
      h.exists_finds hreach.to_reflTransGen hfinds.toServes hlinks
    exact ⟨other, hreach.tail hreads, hnext⟩

/-- Where every chain of imports ends, so does every chain of linked files. -/
theorem acc_links (h : IsPlainlyLinked d root entry)
    (hpath : ReflTransGen (Reads d root bracedExtension) entry path)
    (hacc : Acc (Function.swap (Reads d root bracedExtension)) path)
    (hserves : Serves d root path location) : Acc (Function.swap (Links d)) location := by
  induction hacc generalizing location with
  | intro path _ ih =>
    refine .intro _ fun next hlinks => ?_
    obtain ⟨other, hreads, hfinds⟩ := h.exists_finds hpath hserves hlinks
    exact ih other hreads (hpath.tail hreads) hfinds.toServes

end IsPlainlyLinked

theorem exists_file_of_transGen {next : Location} (hchain : TransGen (Links d) location next) :
    ∃ bytes changed, d.node? next = some (.file bytes changed) := by
  obtain ⟨_, _, hlinks⟩ := TransGen.tail'_iff.1 hchain
  exact hlinks.2

theorem Serves.isName (h : Serves d root path location) :
    ∀ step ∈ location.dropLast, IsName step := by
  rw [← h.seat]
  exact Path.isName_of_mem_foldl _

/-! ## What the walk finds -/

/-- An entry for which a file is opened, in the directory in which the walk looks for its targets. No
chain of linked files leads back to it. -/
structure IsEntry (d : Disk) (root entry mark : String) (location : Location) (text : String) :
    Prop where
  /-- What flattening reaches is plain. -/
  linked : IsPlainlyLinked d root entry
  /-- Flattening opens the file for the entry. -/
  serves : Serves d root entry location
  /-- The file holds the text. -/
  source : sourceText d bracedExtension entry = .ok text
  /-- The entry's path starts with these slashes. -/
  slashes : IsMark mark
  /-- The entry's directory is that of the file. -/
  directory : Path.directory entry = mark ++ Path.ofSegments location.dropLast
  /-- Nothing leads back to the file. -/
  acyclic : ¬ TransGen (Links d) location location

/-- A file that holds plain targets imports what it links. -/
theorem imports_iff (htree : IsPlainTree d root) {mark origin content : String} {partials : Bool}
    (hmark : IsMark mark) (hcontent : Dependency.contentOf d entry text origin = .ok content)
    (hat : TextAt d location content)
    (hdirectory : Path.directory origin = mark ++ Path.ofSegments location.dropLast)
    (hnames : ∀ step ∈ location.dropLast, IsName step)
    (htargets : ∀ statement ∈ statements content, IsPlainTarget statement.target) :
    Dependency.Imports d (plainSearchWith partials) entry text origin path ↔
      ∃ next, Links d location next ∧ path = mark ++ Path.ofSegments next := by
  constructor
  · rintro ⟨content', hcontent', statement, hstatement, hleads⟩
    obtain rfl := Except.ok.inj (hcontent.symm.trans hcontent')
    obtain ⟨hfile, rfl⟩ := (Dependency.leads_iff htree hmark hnames hdirectory
      (htargets statement hstatement)).1 hleads
    exact ⟨_, ⟨⟨content, hat, statement, hstatement, rfl⟩, hfile⟩, rfl⟩
  · rintro ⟨next, ⟨⟨content', hat', statement, hstatement, rfl⟩, hfile⟩, rfl⟩
    obtain rfl := hat.unique hat'
    exact ⟨content, hcontent, statement, hstatement, (Dependency.leads_iff htree hmark hnames
      hdirectory (htargets statement hstatement)).2 ⟨hfile, rfl⟩⟩

namespace IsEntry

variable {mark : String} {next : Location} {partials : Bool}

/-- What is linked behind the entry's file is at no path of the entry. -/
theorem ne_entry (h : IsEntry d root entry mark location text)
    (hchain : TransGen (Links d) location next) : mark ++ Path.ofSegments next ≠ entry := by
  intro hentry
  obtain ⟨bytes, changed, hnode⟩ := exists_file_of_transGen hchain
  have htree := h.linked.tree
  have hnames : ∀ step ∈ next, IsName step :=
    fun step hstep => (htree.wellFormed.names _ _ hnode step hstep).1
  have hlocate := htree.wellFormed.locate_of_mem_spellings hnode
    (mark_append_mem_spellings h.slashes next)
  obtain ⟨below, stem, hnext, -⟩ := htree.files next bytes changed hnode
  have hstem : '/' ∉ stem.toList := by
    have hname := hnames (stem ++ bracedExtension) (by simp [hnext])
    exact fun hmem => hname.2.2.2 (by simp [hmem])
  have houtcome : Outcome d (mark ++ Path.ofSegments next) next text := by
    have htext := h.source
    rw [← hentry] at htext
    rw [hnext] at hnames htext ⊢
    exact htree.outcome h.slashes (fun step hstep => hnames step (List.mem_append_left _ hstep)) hstem
      htext
  obtain ⟨file, hopened, hfile⟩ := h.serves.opened
  cases houtcome with
  | found hdirect _ =>
    rw [hentry] at hdirect hlocate
    obtain rfl := Option.some.inj (hdirect.symm.trans hopened)
    obtain rfl := Except.ok.inj (hlocate.symm.trans hfile)
    exact h.acyclic hchain
  | missing _ _ habsent => exact habsent bytes changed hnode

/-- A file that is linked behind the entry's is not the entry's. -/
theorem ne_location (h : IsEntry d root entry mark location text)
    (hchain : TransGen (Links d) location next) : next ≠ location := by
  rintro rfl
  exact h.acyclic hchain

/-- What the entry's file imports is what it links. -/
theorem imports_entry_iff (h : IsEntry d root entry mark location text) :
    Dependency.Imports d (plainSearchWith partials) entry text entry path ↔
      ∃ next, Links d location next ∧ path = mark ++ Path.ofSegments next := by
  obtain ⟨content, hcontent, hat⟩ := h.serves.text
  obtain rfl := Except.ok.inj (h.source.symm.trans hcontent)
  exact imports_iff h.linked.tree h.slashes (by simp [Dependency.contentOf]) hat h.directory
    h.serves.isName (h.linked.targets entry .refl text h.source)

/-- The text of a file that is linked behind the entry's. -/
theorem exists_contentOf (h : IsEntry d root entry mark location text)
    (hchain : TransGen (Links d) location next) : ∃ content,
      d.readText (mark ++ Path.ofSegments next) = .ok content ∧ TextAt d next content ∧
      ∀ statement ∈ statements content, IsPlainTarget statement.target := by
  obtain ⟨path, hreach, hfinds⟩ := h.linked.exists_finds_of_transGen h.serves hchain
  obtain ⟨content, hcontent, hat⟩ := hfinds.text
  refine ⟨content, ?_, hat, h.linked.targets path hreach.to_reflTransGen content hcontent⟩
  obtain ⟨bytes, changed, hnode, htext⟩ := hat
  have hlocate := h.linked.tree.wellFormed.locate_of_mem_spellings hnode
    (mark_append_mem_spellings h.slashes next)
  rw [Disk.readText_of_locate hlocate hnode, htext]

/-- What a file imports that is linked behind the entry's is what it links. -/
theorem imports_iff_of_transGen (h : IsEntry d root entry mark location text)
    (hchain : TransGen (Links d) location next) :
    Dependency.Imports d (plainSearchWith partials) entry text (mark ++ Path.ofSegments next) path ↔
      ∃ last, Links d next last ∧ path = mark ++ Path.ofSegments last := by
  obtain ⟨content, hread, hat, htargets⟩ := h.exists_contentOf hchain
  obtain ⟨bytes, changed, hnode⟩ := exists_file_of_transGen hchain
  have hnames : ∀ step ∈ next, IsName step :=
    fun step hstep => (h.linked.tree.wellFormed.names _ _ hnode step hstep).1
  have hcontent : Dependency.contentOf d entry text (mark ++ Path.ofSegments next) =
      .ok content := by
    rw [Dependency.contentOf, if_neg (h.ne_entry hchain), hread]
  refine imports_iff h.linked.tree h.slashes hcontent hat ?_
    (fun step hstep => hnames step (List.dropLast_subset _ hstep)) htargets
  obtain ⟨below, stem, hnext, -⟩ := h.linked.tree.files next bytes changed hnode
  rw [hnext] at hnames ⊢
  rw [List.dropLast_concat]
  exact Path.directory_mark_append h.slashes
    (fun step hstep => hnames step (List.mem_append_left _ hstep))
    (hnames _ (List.mem_append_right _ (List.mem_singleton_self _))).2.2.2

/-- The walk reaches, besides the entry, the files that are linked behind the entry's. -/
theorem reaches_iff (h : IsEntry d root entry mark location text) :
    Dependency.Reaches d (plainSearchWith partials) entry text path ↔ path = entry ∨
      ∃ next, TransGen (Links d) location next ∧ path = mark ++ Path.ofSegments next := by
  constructor
  · intro hreach
    induction hreach with
    | refl => exact .inl rfl
    | tail _ himports ih =>
      rcases ih with rfl | ⟨here, hchain, rfl⟩
      · obtain ⟨next, hlinks, rfl⟩ := h.imports_entry_iff.1 himports
        exact .inr ⟨next, .single hlinks, rfl⟩
      · obtain ⟨next, hlinks, rfl⟩ := (h.imports_iff_of_transGen hchain).1 himports
        exact .inr ⟨next, hchain.tail hlinks, rfl⟩
  · rintro (rfl | ⟨next, hchain, rfl⟩)
    · exact .refl
    · induction hchain with
      | single hlinks => exact .single (h.imports_entry_iff.2 ⟨_, hlinks, rfl⟩)
      | tail hchain hlinks ih =>
        exact ih.tail ((h.imports_iff_of_transGen hchain).2 ⟨_, hlinks, rfl⟩)

/-- The walk finds the files that are linked behind the entry's. -/
theorem exists_dependencies (h : IsEntry d root entry mark location text) (partials : Bool) :
    ∃ found, Dependency.dependencies d (plainSearchWith partials) entry text = .ok found ∧
      ∀ file, file ∈ found ↔
        ∃ next, TransGen (Links d) location next ∧ file = mark ++ Path.ofSegments next := by
  have hd := h.linked.tree.wellFormed
  have htext : ∀ path, Dependency.Reaches d (plainSearchWith partials) entry text path →
      path ≠ entry → ∃ content, d.readText path = .ok content := by
    intro path hreach hne
    obtain ⟨next, hchain, rfl⟩ := (h.reaches_iff.1 hreach).resolve_left hne
    obtain ⟨content, hread, -⟩ := h.exists_contentOf hchain
    exact ⟨content, hread⟩
  obtain ⟨found, hfound, hdiscovery⟩ := Dependency.exists_dependencies_discovery hd
    (Dependency.isSteady_plainSearchWith partials) htext
  refine ⟨found, hfound, fun file => ?_⟩
  rw [hdiscovery.mem_iff_reaches, h.reaches_iff]
  constructor
  · rintro ⟨hne, hfile⟩
    exact hfile.resolve_left hne
  · rintro ⟨next, hchain, rfl⟩
    exact ⟨h.ne_entry hchain, .inr ⟨next, hchain, rfl⟩⟩

/-- A path of a file that is linked behind the entry's leads there. -/
theorem locate_eq (h : IsEntry d root entry mark location text)
    (hchain : TransGen (Links d) location next) {slashes : String} (hslashes : IsMark slashes) :
    d.locate (slashes ++ Path.ofSegments next) = .ok next := by
  obtain ⟨bytes, changed, hnode⟩ := exists_file_of_transGen hchain
  exact h.linked.tree.wellFormed.locate_of_mem_spellings hnode
    (mark_append_mem_spellings hslashes next)

theorem locate_of_finds (h : IsEntry d root entry mark location text) {file : String}
    (hchain : TransGen (Links d) location next) (hfinds : Finds d root file next) :
    d.locate file = .ok next := by
  obtain ⟨slashes, hslashes, hspelled⟩ := hfinds.spelled
  rw [hspelled]
  exact h.locate_eq hchain hslashes.1

end IsEntry

/-! ## The same files -/

/-- A normalised path below the root is names behind the root's slashes, and its targets are read from
the names before the last on. -/
theorem exists_seat (htree : IsPlainTree d root) (hentry : Path.normalise entry = entry)
    {first : String} {more : List String}
    (hbelow : Path.below? root entry = some (first :: more)) :
    ∃ above name, (∀ step ∈ above ++ [name], IsName step) ∧
      entry = Path.root root ++ Path.ofSegments (above ++ [name]) ∧ IsSeat root entry above := by
  unfold Path.below? at hbelow
  split at hbelow
  next hsame =>
    obtain ⟨hroots, hprefix⟩ := hsame
    have habsolute : Path.isAbsolute entry = true := by
      rw [Path.isAbsolute_iff_root, ← hroots]
      exact Path.isAbsolute_iff_root.1 htree.absolute
    have hnames := Path.isName_of_mem_foldl entry
    have hpath := Path.eq_root_append habsolute hentry
    rw [Path.names_eq_foldl htree.absolute htree.normalised,
      Path.names_eq_foldl habsolute hentry] at hprefix hbelow
    obtain ⟨rest, hrest⟩ := List.isPrefixOf_iff_prefix.1 hprefix
    rw [← hrest] at hnames hpath hbelow
    rw [List.drop_left, Option.some.injEq] at hbelow
    rcases List.eq_nil_or_concat rest with hnil | ⟨below, name, hconcat⟩
    · rw [hnil] at hbelow
      cases hbelow
    · rw [List.concat_eq_append] at hconcat
      rw [hconcat, ← List.append_assoc] at hnames hpath
      rw [← hroots] at hpath
      refine ⟨_, name, hnames, hpath, ?_⟩
      rw [hpath]
      refine foldl_segments_belowRoot htree.absolute htree.normalised
        (Path.isMark_root htree.absolute) (fun _ => rfl) ?_ ?_
      · exact fun step hstep => hnames step (by simp [hstep])
      · exact hnames name (by simp)
  next => cases hbelow

/-- Where flattening comes to an end and opens a file for the entry, that file is a starting point for
both sides. -/
theorem exists_isEntry (hlinked : IsPlainlyLinked d root entry)
    (hentry : Path.normalise entry = entry) {first own : String} {more : List String}
    (hbelow : Path.below? root entry = some (first :: more))
    (hacc : Acc (Function.swap (Reads d root bracedExtension)) entry)
    (hown : openedFor? d bracedExtension entry = some own) :
    ∃ location text, IsEntry d root entry (Path.root root) location text ∧
      d.locate own = .ok location := by
  have htree := hlinked.tree
  obtain ⟨above, name, hnames, hpath, hseat⟩ := exists_seat htree hentry hbelow
  have hmark := Path.isMark_root htree.absolute
  have hspelling := mark_append_mem_spellings hmark (above ++ [name])
  rw [← hpath] at hspelling
  obtain ⟨other, text, hlocate, htext, hat⟩ := exists_file_of_openedFor?
    (fun step hstep => hnames step (by simp [hstep])) (hnames name (by simp)) hspelling hown
  have hserves : Serves d root entry (above ++ [other]) :=
    { opened := ⟨own, hown, hlocate⟩
      text := ⟨text, htext, hat⟩
      seat := by rwa [List.dropLast_concat] }
  have hdirectory : Path.directory entry = Path.root root ++ Path.ofSegments above := by
    rw [hpath]
    exact Path.directory_mark_append hmark (fun step hstep => hnames step (by simp [hstep]))
      (hnames name (by simp)).2.2.2
  refine ⟨above ++ [other], text, ?_, hlocate⟩
  exact
    { linked := hlinked
      serves := hserves
      source := htext
      slashes := hmark
      directory := by rw [List.dropLast_concat, hdirectory]
      acyclic := not_transGen_of_acc (hlinked.acc_links .refl hacc hserves) }

/-- Where nothing is opened for the entry, nothing else is opened and nothing is found. -/
theorem IsSilent.eq_entry (h : IsSilent d entry)
    (hreach : ReflTransGen (Reads d root bracedExtension) entry path) : path = entry := by
  rcases hreach.cases_head with rfl | ⟨next, hreads, -⟩
  · rfl
  · exact absurd hreads h.not_reads

theorem dependencies_empty (partials : Bool) :
    Dependency.dependencies d (plainSearchWith partials) entry "" = .ok [] := by
  rw [Dependency.dependencies_eq_walk, Dependency.references, statements,
    scan_eq_nil_of_not_mem (by simp), List.map_nil, Dependency.walk]

/-- The files that are opened for what flattening reaches are those in the list. -/
def IsOpened (d : Disk) (root entry : String) (opened : List String) : Prop :=
  ∀ file, file ∈ opened ↔ ∃ path, ReflTransGen (Reads d root bracedExtension) entry path ∧
    openedFor? d bracedExtension path = some file

/-- The files that are linked behind a location are those in the list. -/
def IsLinked (d : Disk) (mark : String) (location : Location) (found : List String) : Prop :=
  ∀ file, file ∈ found ↔
    ∃ next, TransGen (Links d) location next ∧ file = mark ++ Path.ofSegments next

namespace IsEntry

variable {own : String} {opened found : List String}

/-- What is opened besides the entry's file is the path of a linked file. -/
theorem eq_or_finds_of_mem (h : IsEntry d root entry (Path.root root) location text)
    (hopened : IsOpened d root entry opened) (hown : openedFor? d bracedExtension entry = some own)
    {file : String} (hfile : file ∈ opened) :
    file = own ∨ ∃ next, TransGen (Links d) location next ∧ Finds d root file next := by
  obtain ⟨path, hreach, hpath⟩ := (hopened file).1 hfile
  rcases Relation.reflTransGen_iff_eq_or_transGen.1 hreach with rfl | hreach
  · exact .inl (Option.some.inj (hpath.symm.trans hown))
  · rcases h.linked.finds_or_silent_of_transGen h.serves hreach with
      ⟨next, hchain, hnext⟩ | hsilent
    · obtain rfl := Option.some.inj (hpath.symm.trans hnext.direct)
      exact .inr ⟨next, hchain, hnext⟩
    · cases hsilent.1.symm.trans hpath

/-- Every linked file is opened. -/
theorem exists_mem_of_transGen (h : IsEntry d root entry (Path.root root) location text)
    (hopened : IsOpened d root entry opened) {next : Location}
    (hchain : TransGen (Links d) location next) : ∃ file ∈ opened, Finds d root file next := by
  obtain ⟨path, hreach, hfinds⟩ := h.linked.exists_finds_of_transGen h.serves hchain
  exact ⟨path, (hopened path).2 ⟨path, hreach.to_reflTransGen, hfinds.direct⟩, hfinds⟩

/-- The linked files are those that are opened besides the entry's. -/
theorem exists_locate_iff (h : IsEntry d root entry (Path.root root) location text)
    (hopened : IsOpened d root entry opened) (hfound : IsLinked d (Path.root root) location found)
    (hown : openedFor? d bracedExtension entry = some own)
    (hlocate : d.locate own = .ok location) (place : Location) :
    (∃ file ∈ found, d.locate file = .ok place) ↔
      (∃ file ∈ opened, d.locate file = .ok place) ∧ d.locate own ≠ .ok place := by
  constructor
  · rintro ⟨file, hfile, hat⟩
    obtain ⟨next, hchain, rfl⟩ := (hfound file).1 hfile
    obtain rfl := Except.ok.inj ((h.locate_eq hchain h.slashes).symm.trans hat)
    obtain ⟨other, hother, hfinds⟩ := h.exists_mem_of_transGen hopened hchain
    refine ⟨⟨other, hother, h.locate_of_finds hchain hfinds⟩, fun hself => ?_⟩
    exact h.ne_location hchain (Except.ok.inj (hself.symm.trans hlocate))
  · rintro ⟨⟨file, hfile, hat⟩, hother⟩
    rcases h.eq_or_finds_of_mem hopened hown hfile with rfl | ⟨next, hchain, hfinds⟩
    · exact absurd hat hother
    · obtain rfl := Except.ok.inj ((h.locate_of_finds hchain hfinds).symm.trans hat)
      exact ⟨_, (hfound _).2 ⟨next, hchain, rfl⟩, h.locate_eq hchain h.slashes⟩

/-- Below a root that is not the top of the disk, both sides give the linked files the same paths. -/
theorem mem_iff_mem (h : IsEntry d root entry (Path.root root) location text)
    (hopened : IsOpened d root entry opened) (hfound : IsLinked d (Path.root root) location found)
    (hown : openedFor? d bracedExtension entry = some own)
    (hlocate : d.locate own = .ok location) (hroot : Path.names root ≠ []) (file : String) :
    file ∈ found ↔ file ∈ opened ∧ own ≠ file := by
  have htree := h.linked.tree
  rw [Path.names_eq_foldl htree.absolute htree.normalised] at hroot
  have hpath {file : String} {next : Location} (hfinds : Finds d root file next) :
      file = Path.root root ++ Path.ofSegments next := by
    obtain ⟨mark, hmark, hspelled⟩ := hfinds.spelled
    rw [hspelled, hmark.2 hroot]
  constructor
  · intro hfile
    obtain ⟨next, hchain, hspelled⟩ := (hfound file).1 hfile
    obtain ⟨other, hother, hfinds⟩ := h.exists_mem_of_transGen hopened hchain
    obtain rfl : other = file := (hpath hfinds).trans hspelled.symm
    refine ⟨hother, fun hself => h.ne_location hchain ?_⟩
    subst hself
    exact Except.ok.inj ((h.locate_of_finds hchain hfinds).symm.trans hlocate)
  · rintro ⟨hfile, hne⟩
    rcases h.eq_or_finds_of_mem hopened hown hfile with rfl | ⟨next, hchain, hfinds⟩
    · exact absurd rfl hne
    · exact (hfound file).2 ⟨next, hchain, hpath hfinds⟩

end IsEntry

/-- Flattening and the walk see the same imports in a plain tree. Whenever flattening an entry below
the root comes to an end, the walk through the entry's text gives a list, and the files on it are the
files that flattening opens besides the one for the entry. They are also the same paths, unless the
root is the top of the disk, where flattening may put another number of slashes in front. -/
theorem mem_dependencies_iff_opened (htree : IsPlainTree d root)
    (hentry : Path.normalise entry = entry) {first out : String} {more : List String}
    (hbelow : Path.below? root entry = some (first :: more))
    (htargets : ∀ path, ReflTransGen (Reads d root bracedExtension) entry path →
      ∀ text, sourceText d bracedExtension path = .ok text →
        ∀ statement ∈ statements text, IsPlainTarget statement.target)
    (hout : (flatten d root bracedExtension entry).text = .ok out) (partials : Bool) :
    ∃ text found, sourceText d bracedExtension entry = .ok text ∧
      Dependency.dependencies d (plainSearchWith partials) entry text = .ok found ∧
      (∀ place, (∃ file ∈ found, d.locate file = .ok place) ↔
        (∃ file ∈ (flatten d root bracedExtension entry).opened, d.locate file = .ok place) ∧
          ∀ own, openedFor? d bracedExtension entry = some own → d.locate own ≠ .ok place) ∧
      (Path.names root ≠ [] → ∀ file, file ∈ found ↔
        file ∈ (flatten d root bracedExtension entry).opened ∧
          ∀ own, openedFor? d bracedExtension entry = some own → own ≠ file) := by
  obtain ⟨s, hresult⟩ : ∃ s, (flatten d root bracedExtension entry).result = .ok s := by
    cases hresult : (flatten d root bracedExtension entry).result with
    | ok s => exact ⟨s, rfl⟩
    | error failure => simp [Flattening.text, hresult, Except.map] at hout
  have hlinked : IsPlainlyLinked d root entry :=
    ⟨htree, fun path hpath => exists_sourceText_of_flattenWithin hresult hpath, htargets⟩
  have hopened : IsOpened d root entry (flatten d root bracedExtension entry).opened :=
    fun file => mem_opened_flattenWithin hresult
  cases hown : openedFor? d bracedExtension entry with
  | none =>
    obtain ⟨text, htext⟩ := hlinked.readable entry .refl
    obtain rfl := eq_empty_of_openedFor? hown htext
    have hsilent : IsSilent d entry := ⟨hown, htext⟩
    have hnothing (file : String) : file ∉ (flatten d root bracedExtension entry).opened := by
      intro hmem
      obtain ⟨other, hreach, hfile⟩ := (hopened file).1 hmem
      rw [hsilent.eq_entry hreach, hown] at hfile
      cases hfile
    exact ⟨"", [], htext, dependencies_empty partials, by simp [hnothing], by simp [hnothing]⟩
  | some own =>
    obtain ⟨location, text, hstart, hlocate⟩ :=
      exists_isEntry hlinked hentry hbelow (acc_of_flattenWithin hresult) hown
    obtain ⟨found, hfound, hmem⟩ := hstart.exists_dependencies partials
    refine ⟨text, found, hstart.source, hfound, fun place => ?_, fun hroot file => ?_⟩
    · rw [hstart.exists_locate_iff hopened hmem hown hlocate place]
      simp
    · rw [hstart.mem_iff_mem hopened hmem hown hlocate hroot file]
      simp

/-! ## A stylesheet and its neighbour -/

theorem wellFormed_twiceDisk : twiceDisk.WellFormed :=
  .of_nodes (by decide +kernel) (by decide +kernel) (by decide +kernel)

theorem isPlainTree_twiceDisk : IsPlainTree twiceDisk "/s" where
  wellFormed := wellFormed_twiceDisk
  absolute := rfl
  normalised := by decide +kernel
  files location bytes changed hnode := by
    have hroot : twiceDisk.lexical "/s" = ["s"] := by decide +kernel
    have hmem := Table.mem_of_get? hnode
    simp only [twiceDisk, List.mem_cons, Prod.mk.injEq, reduceCtorEq, and_false, false_or,
      List.not_mem_nil, or_false] at hmem
    rw [hroot]
    rcases hmem with ⟨rfl, -⟩ | ⟨rfl, -⟩
    · exact ⟨[], "main", rfl, by decide⟩
    · exact ⟨[], "a", rfl, by decide⟩

theorem openedFor?_of_readBytes (hentry : entryPath bracedExtension path = path)
    (hbytes : d.readBytes path = .ok (Text.Utf8.encode text.toList)) (htext : '\r' ∉ text.toList) :
    openedFor? d bracedExtension path = some path := by
  have hread : d.readText path = .ok text := by
    rw [Disk.readText, hbytes]
    exact Disk.textOf_encode htext
  simp only [openedFor?, hentry, read, hread, Reading.opened?]

theorem isPlainTarget_of_reaches_twiceDisk {path : String}
    (hreach : ReflTransGen (Reads twiceDisk "/s" bracedExtension) "/s/main.scss" path)
    (htext : sourceText twiceDisk bracedExtension path = .ok text) :
    ∀ statement ∈ statements text, IsPlainTarget statement.target := by
  have hplain : IsPlainTarget "a" := ⟨by decide, by decide, by decide⟩
  intro statement hstatement
  rcases eq_or_eq_of_reaches_twiceDisk hreach with rfl | rfl
  · obtain rfl := Except.ok.inj (sourceText_twiceDisk_main.symm.trans htext)
    rw [statements_twiceImporting] at hstatement
    rcases List.mem_cons.1 hstatement with rfl | hstatement
    · exact hplain
    · rw [List.mem_singleton.1 hstatement]
      exact hplain
  · obtain rfl := Except.ok.inj (sourceText_twiceDisk_neighbour.symm.trans htext)
    rw [statements, scan_eq_nil_of_not_mem (by decide)] at hstatement
    cases hstatement

/-- Flattening the stylesheet that imports its neighbour twice opens both, and the walk finds the
neighbour. -/
theorem mem_dependencies_twiceDisk : IsPlainTree twiceDisk "/s" ∧
    Path.normalise "/s/main.scss" = "/s/main.scss" ∧
    Path.below? "/s" "/s/main.scss" = some ["main.scss"] ∧
    (∀ path, ReflTransGen (Reads twiceDisk "/s" bracedExtension) "/s/main.scss" path →
      ∀ text, sourceText twiceDisk bracedExtension path = .ok text →
        ∀ statement ∈ statements text, IsPlainTarget statement.target) ∧
    ∃ out, (flatten twiceDisk "/s" bracedExtension "/s/main.scss").text = .ok out ∧
    ∃ found, Dependency.dependencies twiceDisk (plainSearchWith true) "/s/main.scss"
        twiceImporting = .ok found ∧ "/s/a.scss" ∈ found ∧ "/s/main.scss" ∉ found := by
  have htargets : ∀ path, ReflTransGen (Reads twiceDisk "/s" bracedExtension) "/s/main.scss" path →
      ∀ text, sourceText twiceDisk bracedExtension path = .ok text →
        ∀ statement ∈ statements text, IsPlainTarget statement.target :=
    fun _ hreach _ htext => isPlainTarget_of_reaches_twiceDisk hreach htext
  have hentry : Path.normalise "/s/main.scss" = "/s/main.scss" := by decide +kernel
  have hbelow : Path.below? "/s" "/s/main.scss" = some ["main.scss"] := by decide +kernel
  obtain ⟨s, hresult, -⟩ := isInlinable_twiceDisk.exists_flatten rfl (by decide) .refl
  have hout : (flatten twiceDisk "/s" bracedExtension "/s/main.scss").text =
      .ok (String.ofList s) := congrArg (Except.map String.ofList) hresult
  obtain ⟨text, found, htext, hfound, -, hsame⟩ :=
    mem_dependencies_iff_opened isPlainTree_twiceDisk hentry hbelow htargets hout true
  obtain rfl := Except.ok.inj (sourceText_twiceDisk_main.symm.trans htext)
  have hfiles := hsame (by decide +kernel)
  have hmainBytes : twiceDisk.readBytes "/s/main.scss" =
      .ok (Text.Utf8.encode twiceImporting.toList) := by decide +kernel
  have hmain : openedFor? twiceDisk bracedExtension "/s/main.scss" = some "/s/main.scss" :=
    openedFor?_of_readBytes (by decide +kernel) hmainBytes (by decide)
  have hneighbourBytes : twiceDisk.readBytes "/s/a.scss" =
      .ok (Text.Utf8.encode ".a \x7b\x7d".toList) := by decide +kernel
  have hneighbour : openedFor? twiceDisk bracedExtension "/s/a.scss" = some "/s/a.scss" :=
    openedFor?_of_readBytes (by decide +kernel) hneighbourBytes (by decide)
  have hreads : Reads twiceDisk "/s" bracedExtension "/s/main.scss" "/s/a.scss" :=
    ⟨_, sourceText_twiceDisk_main, ⟨"@import 'a';", "a"⟩, by simp [statements_twiceImporting],
      by decide +kernel⟩
  refine ⟨isPlainTree_twiceDisk, hentry, hbelow, htargets, _, hout, found, hfound, ?_, ?_⟩
  · refine (hfiles _).2 ⟨(mem_opened_flattenWithin hresult).2
      ⟨"/s/a.scss", .single hreads, hneighbour⟩, fun own hself => ?_⟩
    obtain rfl := Option.some.inj (hmain.symm.trans hself)
    decide
  · intro hmem
    exact ((hfiles _).1 hmem).2 _ hmain rfl

end StyleBundle.Import
