import StyleBundle.Proofs.Cache.Layout

/-!
# The cache as a table

Writing, clearing and reading treat the cache directory as a table of entries by source and tag. The
ledger is that table. What stands below the cache directory mirrors the ledger: directories of tags,
and in them one file for each entry, so that reading an entry is looking it up. Every operation
keeps this up, as long as the way to the cache directory leads through nothing below it. A write
that fails may leave directories behind, which the ledger does not see.
-/

namespace StyleBundle.Cache

open Disk (IsFileName)

/-- An operation on the cache. -/
inductive Operation
  /-- Writes the entry that a stylesheet makes. -/
  | write (sheet : Sheet) (sourceMap : Option String) (tag : String)
  /-- Removes all entries, or those under one tag. -/
  | clear (tag : Option String)
  /-- Reads the entry of a source under a tag. -/
  | read (path tag : String)

/-- The entries by source and tag. -/
abbrev Ledger := Table (String × String) Entry

namespace Operation

/-- Whether an operation succeeds, and the disk behind it. -/
def run [Limits] (directory : String) (d : Disk) : Operation → Except Failure Unit × Disk
  | .write sheet sourceMap tag => attemptEntry d directory (entryOf sheet sourceMap tag)
  | .clear tag =>
    match Cache.clear d directory tag with
    | .ok d => (.ok (), d)
    | .error failure => (.error failure, d)
  | .read path tag => ((readEntry d directory path tag).map fun _ => (), d)

/-- The ledger behind an operation. -/
def note (ledger : Ledger) : Operation → Ledger
  | .write sheet sourceMap tag => ledger.put (sheet.path, tag) (entryOf sheet sourceMap tag)
  | .clear none => []
  | .clear (some tag) => ledger.filter fun entry => entry.1.2 ≠ tag
  | .read .. => ledger

/-- An operation on some sources, with tags that the disk takes as names. -/
def IsOn (paths : List String) : Operation → Prop
  | .write sheet _ tag => sheet.path ∈ paths ∧ IsFileName tag
  | .clear none => True
  | .clear (some tag) => IsFileName tag
  | .read path tag => path ∈ paths ∧ IsFileName tag

/-- An operation that leaves the entry of a source under a tag alone. -/
def Spares (path tag : String) : Operation → Prop
  | .write sheet _ other => (sheet.path, other) ≠ (path, tag)
  | .clear none => False
  | .clear (some other) => other ≠ tag
  | .read .. => True

/-- Clearing takes from the ledger all entries, or those under the tag. -/
theorem get?_note_clear (ledger : Ledger) (cleared : Option String) (path tag : String) :
    Table.get? (path, tag) (note ledger (.clear cleared)) =
      if cleared.toList <+: [tag, fileName path] then none else Table.get? (path, tag) ledger := by
  cases cleared with
  | none => simp [note]
  | some other =>
    have hfilter := Table.get?_filter (fun key : String × String => decide (key.2 ≠ other))
      (path, tag) ledger
    rw [note, hfilter]
    by_cases hsame : tag = other
    · simp [hsame]
    · simp [hsame, Ne.symm hsame]

end Operation

/-- A disk and a ledger behind an operation. One that fails is not noted. -/
def perform [Limits] (directory : String) (state : Disk × Ledger) (op : Operation) :
    Disk × Ledger :=
  match op.run directory state.1 with
  | (.ok _, d) => (d, op.note state.2)
  | (.error _, d) => (d, state.2)

/-- A disk and the ledger behind some operations. -/
def performAll [Limits] (directory : String) (d : Disk) (ops : List Operation) : Disk × Ledger :=
  ops.foldl (perform directory) (d, [])

variable {directory path tag : String} {paths : List String} {first d d' : Disk} {ledger : Ledger}
  {entry : Entry} {op : Operation} {ops : List Operation}

/-- A way that leads through nothing below the place where it ends. -/
def IsDirect (first : Disk) (directory : String) : Prop :=
  ∀ place ∈ first.way directory, first.lexical directory <+: place →
    place = first.lexical directory

/-- Below the cache directory, the way to an entry leads through the directory of its tag only. -/
theorem IsDirect.names_of_mem_way (h : IsDirect first directory) (htag : Path.IsName tag)
    {names : List String} (hnames : names ≠ [])
    (hway : first.lexical directory ++ names ∈ first.way (entryPath directory path tag)) :
    names = [tag] ∨ names = [tag, fileName path] := by
  rw [way_entryPath first directory path htag] at hway
  simp only [List.mem_append, List.mem_cons, List.not_mem_nil, or_false] at hway
  rcases hway with hway | hway | hway
  · have htop := h _ hway (List.prefix_append _ _)
    exact absurd (List.append_right_eq_self.1 htop) hnames
  · exact .inl (List.append_cancel_left hway)
  · exact .inr (List.append_cancel_left hway)

variable [Limits]

/-- A disk that mirrors a ledger, with the cache directory as it was at the start. -/
structure Mirrors (directory : String) (paths : List String) (first : Disk) (ledger : Ledger)
    (d : Disk) : Prop where
  /-- The disk is a tree. -/
  wellFormed : d.WellFormed
  /-- The working directory is the same. -/
  home : d.home = first.home
  /-- The cache is not above the working directory. -/
  away : ¬ first.lexical directory <+: d.home
  /-- No file has come up elsewhere. -/
  elsewhere : ∀ place, ¬ first.lexical directory <+: place → d.kind? place = some true →
    first.kind? place = some true
  /-- The cache directory is no file. -/
  top : d.kind? (first.lexical directory) ≠ some true
  /-- Below the cache directory there are the directories of tags and the entries. -/
  below : ∀ names ≠ [], ∀ kind, d.kind? (first.lexical directory ++ names) = some kind →
    kind = false ∧ (∃ tag, names = [tag]) ∨
      ∃ path tag entry, Table.get? (path, tag) ledger = some entry ∧ names = [tag, fileName path]
  /-- The entries are those of the ledger. -/
  held : ∀ path tag entry, Table.get? (path, tag) ledger = some entry →
    path ∈ paths ∧ IsFileName tag ∧ entry.version = formatVersion ∧
      d.locate (entryPath directory path tag) =
        .ok (first.lexical directory ++ [tag, fileName path]) ∧
      ∃ written, d.node? (first.lexical directory ++ [tag, fileName path]) =
        some (.file (Text.Utf8.encode entry.print.toList) written)

/-- A disk without a cache mirrors the empty ledger. -/
theorem Mirrors.start (hd : first.WellFormed)
    (hmissing : first.node? (first.lexical directory) = none) :
    Mirrors directory paths first [] first where
  wellFormed := hd
  home := rfl
  away := by
    rintro ⟨names, hhome⟩
    obtain ⟨_, hnode⟩ := Disk.hasDirectory_iff.1 hd.home
    rw [← hhome] at hnode
    by_cases hnames : names = []
    · rw [hnames, List.append_nil, hmissing] at hnode
      cases hnode
    · obtain ⟨_, hdirectory⟩ := Disk.hasDirectory_iff.1 (hd.hasDirectory_of_append hnames hnode)
      rw [hmissing] at hdirectory
      cases hdirectory
  elsewhere _ _ h := h
  top := by simp [Disk.kind?, hmissing]
  below names hnames kind hkind := by
    obtain ⟨node, hnode, -⟩ := Option.map_eq_some_iff.1 hkind
    obtain ⟨_, hdirectory⟩ := Disk.hasDirectory_iff.1 (hd.hasDirectory_of_append hnames hnode)
    rw [hmissing] at hdirectory
    cases hdirectory
  held _ _ _ h := by cases h

/-- Sources that have different digests. -/
def Distinct (paths : List String) : Prop :=
  ∀ path ∈ paths, ∀ other ∈ paths, fileName path = fileName other → path = other

namespace Mirrors

/-- Besides the entry, a write brings nothing below the cache directory but the directory of the
entry's tag: what is new stands on the way to the entry. -/
theorem eq_tag_of_new (h : Mirrors directory paths first ledger d)
    (hdirect : IsDirect first directory) (htag : IsFileName entry.tag)
    (hwritten : writeEntry d directory entry = .ok d') {names : List String} (hnames : names ≠ [])
    (hother : names ≠ [entry.tag, fileName entry.path]) {isFile : Bool}
    (hold : d.kind? (first.lexical directory ++ names) = none)
    (hkind : d'.kind? (first.lexical directory ++ names) = some isFile) :
    isFile = false ∧ names = [entry.tag] := by
  obtain ⟨location, stamp, hlexical, -, hwriting, -⟩ := evolves_writeEntry h.wellFormed hwritten
  rw [lexical_entryPath d directory entry.path htag.1, Disk.lexical_congr h.home] at hlexical
  have hmissing := Disk.kind?_eq_none.1 hold
  have hway := (isSome_of_writeEntry h.wellFormed hwritten
    (Disk.isSome_of_kind? hkind)).resolve_left (by simp [hmissing])
  rw [Disk.way_congr h.home] at hway
  have hself : first.lexical directory ++ names ≠ location := fun heq =>
    hother (List.append_cancel_left (heq.trans hlexical.symm))
  exact ⟨hwriting.eq_false_of_new hself hold hkind,
    (hdirect.names_of_mem_way htag.1 hnames hway).resolve_right hother⟩

/-- Writing an entry notes it. -/
theorem write (h : Mirrors directory paths first ledger d) (hdirect : IsDirect first directory)
    (hdistinct : Distinct paths) (hpath : entry.path ∈ paths) (htag : IsFileName entry.tag)
    (hversion : entry.version = formatVersion) (hwritten : writeEntry d directory entry = .ok d') :
    Mirrors directory paths first (Table.put (entry.path, entry.tag) entry ledger) d' := by
  obtain ⟨location, stamp, hlexical, hlocate, hwriting, hd', hnode, -⟩ :=
    evolves_writeEntry h.wellFormed hwritten
  rw [lexical_entryPath d directory entry.path htag.1, Disk.lexical_congr h.home] at hlexical
  refine ⟨hd', hwriting.home.trans h.home, hwriting.home ▸ h.away, ?elsewhere, ?top, ?below, ?held⟩
  case elsewhere =>
    intro place hplace hfile
    refine h.elsewhere place hplace (hwriting.kind?_of_file ?_ hfile)
    rintro rfl
    exact hplace (hlexical ▸ List.prefix_append _ _)
  case top =>
    intro hfile
    refine h.top (hwriting.kind?_of_file ?_ hfile)
    intro htop
    simp [← hlexical] at htop
  case below =>
    intro names hnames isFile hkind
    by_cases hself : first.lexical directory ++ names = location
    · rw [← hlexical] at hself
      exact .inr ⟨_, _, entry, Table.get?_put_self .., List.append_cancel_left hself⟩
    · cases hold : d.kind? (first.lexical directory ++ names) with
      | some wasFile =>
        have hstays := hwriting.kind?_of_some hself hold
        obtain rfl : wasFile = isFile := Option.some.inj (hstays.symm.trans hkind)
        rcases h.below names hnames wasFile hold with hdirectory | ⟨path, tag, other, hget, heq⟩
        · exact .inl hdirectory
        · right
          by_cases hkey : (entry.path, entry.tag) = (path, tag)
          · exact ⟨path, tag, entry, hkey ▸ Table.get?_put_self .., heq⟩
          · exact ⟨path, tag, other, (Table.get?_put_of_ne entry ledger hkey).trans hget, heq⟩
      | none =>
        have hother : names ≠ [entry.tag, fileName entry.path] := by
          rintro rfl
          exact hself hlexical
        obtain ⟨hdirectory, heq⟩ :=
          h.eq_tag_of_new hdirect htag hwritten hnames hother hold hkind
        exact .inl ⟨hdirectory, entry.tag, heq⟩
  case held =>
    intro path tag other hget
    by_cases hkey : (entry.path, entry.tag) = (path, tag)
    · obtain ⟨rfl, rfl⟩ := Prod.mk.inj hkey
      rw [Table.get?_put_self] at hget
      obtain rfl := Option.some.inj hget
      rw [hlexical]
      exact ⟨hpath, htag, hversion, hlocate, stamp, hnode⟩
    · rw [Table.get?_put_of_ne entry ledger hkey] at hget
      obtain ⟨hmem, hname, hother, hfound, written, hheld⟩ := h.held path tag other hget
      refine ⟨hmem, hname, hother, hwriting.locate hfound, written, ?_⟩
      refine (hwriting.files _ ?_ _ _).2 hheld
      intro hsame
      have hnames := List.append_cancel_left (hsame.trans hlexical.symm)
      simp only [List.cons.injEq, and_true] at hnames
      exact hkey (by rw [hdistinct _ hmem _ hpath hnames.2, hnames.1])

/-- Directories that are made for an entry, all of them or some, are not seen by the ledger. -/
theorem attempt (h : Mirrors directory paths first ledger d) (hdirect : IsDirect first directory)
    (htag : Path.IsName tag) :
    Mirrors directory paths first ledger
      (d.attemptDirectories (Path.child directory tag)).disk := by
  obtain ⟨hmaking, hwell⟩ := h.wellFormed.attemptDirectories (Path.child directory tag)
  refine ⟨hwell, hmaking.home.trans h.home, hmaking.home ▸ h.away, ?elsewhere, ?top, ?below, ?held⟩
  case elsewhere =>
    intro place hplace hfile
    exact h.elsewhere place hplace (hmaking.kind?_of_file not_false hfile)
  case top => exact mt (hmaking.kind?_of_file not_false) h.top
  case below =>
    intro names hnames isFile hkind
    cases hold : d.kind? (first.lexical directory ++ names) with
    | some wasFile =>
      have hstays := hmaking.kind?_of_some not_false hold
      obtain rfl : wasFile = isFile := Option.some.inj (hstays.symm.trans hkind)
      exact h.below names hnames wasFile hold
    | none =>
      -- What is new is a directory on the way to the tag's, and there is only that one.
      have hmissing := Disk.kind?_eq_none.1 hold
      have hway := (h.wellFormed.isSome_of_attemptDirectories
        (Disk.isSome_of_kind? hkind)).resolve_left (by simp [hmissing])
      rw [Disk.way_child d directory htag, Disk.way_congr h.home, Disk.lexical_congr h.home] at hway
      refine .inl ⟨hmaking.eq_false_of_new not_false hold hkind, tag, ?_⟩
      rcases List.mem_append.1 hway with hway | hway
      · have hself := hdirect _ hway (List.prefix_append _ _)
        exact absurd (List.append_right_eq_self.1 hself) hnames
      · exact List.append_cancel_left (List.mem_singleton.1 hway)
  case held =>
    intro path other entry hget
    obtain ⟨hmem, hname, hversion, hlocate, written, hheld⟩ := h.held path other entry hget
    exact ⟨hmem, hname, hversion, hmaking.locate hlocate, written,
      (hmaking.files _ not_false _ _).2 hheld⟩

/-- Whatever the ledger holds under a tag is found behind the directory of the tag. -/
theorem find_of_held (h : Mirrors directory paths first ledger d)
    (hget : Table.get? (path, tag) ledger = some entry) :
    ∃ changed changed', d.find (Path.child directory tag) = .ok (.directory changed) ∧
      d.find (Path.tidy directory) = .ok (.directory changed') := by
  obtain ⟨-, htag, -, hlocate, -⟩ := h.held path tag entry hget
  have htidy := Path.tidy_child directory htag.1
  have hfits := Disk.Fits.of_child (isName_fileName path) (Disk.locate_eq_ok_iff.1 hlocate).2.2.1
  rw [htidy] at hfits
  obtain ⟨htagged, hdirectory⟩ := h.wellFormed.locate_of_locate_child (isName_fileName path)
    (Path.ne_empty_of_tidy htidy) hfits hlocate
  rw [← Path.child_tidy directory htag.1] at htagged
  obtain ⟨hcache, hdirectory'⟩ := h.wellFormed.locate_of_locate_child htag.1
    (Path.ne_empty_of_tidy (Path.tidy_tidy directory)) (hfits.of_child htag.1) htagged
  rw [Path.child_tidy directory htag.1] at htagged
  obtain ⟨changed, hnode⟩ := Disk.hasDirectory_iff.1 hdirectory
  obtain ⟨changed', hnode'⟩ := Disk.hasDirectory_iff.1 hdirectory'
  exact ⟨changed, changed', Disk.find_eq_ok_iff.2 ⟨_, htagged, hnode⟩,
    Disk.find_eq_ok_iff.2 ⟨_, hcache, hnode'⟩⟩

/-- Only what can be looked up in a ledger matters. -/
theorem congr {other : Ledger} (h : Mirrors directory paths first ledger d)
    (hsame : ∀ key, Table.get? key other = Table.get? key ledger) :
    Mirrors directory paths first other d :=
  ⟨h.wellFormed, h.home, h.away, h.elsewhere, h.top, by simpa only [hsame] using h.below,
    by simpa only [hsame] using h.held⟩

/-- Removing what stands below a place in the cache removes the entries there from the ledger. -/
theorem erase {other : Ledger} {names : List String} {node : Node}
    (h : Mirrors directory paths first ledger d) (hdirect : IsDirect first directory)
    (hnode : d.node? (first.lexical directory ++ names) = some node)
    (hother : ∀ path tag, Table.get? (path, tag) other =
      if names <+: [tag, fileName path] then none else Table.get? (path, tag) ledger) :
    Mirrors directory paths first other (d.erase (first.lexical directory ++ names)) := by
  have hkind {place : Location} (hplace : ¬ first.lexical directory ++ names <+: place) :
      (d.erase (first.lexical directory ++ names)).kind? place = d.kind? place :=
    h.wellFormed.kind?_erase hnode hplace
  have hgone {place : Location} (hplace : first.lexical directory ++ names <+: place) :
      (d.erase (first.lexical directory ++ names)).kind? place = none := by
    rw [Disk.kind?_eq_none, Disk.node?_erase_below hplace]
  have hhome : (d.erase (first.lexical directory ++ names)).home = d.home :=
    Disk.home_touchParent d _
  have hbelow : ¬ first.lexical directory ++ names <+: d.home := fun hprefix =>
    h.away ((List.prefix_append _ _).trans hprefix)
  refine ⟨h.wellFormed.eraseTree hnode hbelow, hhome.trans h.home, hhome ▸ h.away, ?elsewhere,
    ?top, ?below, ?held⟩
  case elsewhere =>
    intro place hplace hfile
    rw [hkind fun hprefix => hplace ((List.prefix_append _ _).trans hprefix)] at hfile
    exact h.elsewhere place hplace hfile
  case top =>
    intro hfile
    by_cases hprefix : first.lexical directory ++ names <+: first.lexical directory
    · rw [hgone hprefix] at hfile
      cases hfile
    · rw [hkind hprefix] at hfile
      exact h.top hfile
  case below =>
    intro more hmore isFile hstands
    by_cases hprefix : names <+: more
    · rw [hgone ((List.prefix_append_right_inj _).2 hprefix)] at hstands
      cases hstands
    · rw [hkind (mt (List.prefix_append_right_inj _).1 hprefix)] at hstands
      rcases h.below more hmore isFile hstands with hdirectory | ⟨path, tag, entry, hget, rfl⟩
      · exact .inl hdirectory
      · exact .inr ⟨path, tag, entry, by rw [hother, if_neg hprefix, hget], rfl⟩
  case held =>
    intro path tag entry hget
    rw [hother] at hget
    split at hget
    · cases hget
    next hprefix =>
      obtain ⟨hmem, htag, hversion, hlocate, written, hheld⟩ := h.held path tag entry hget
      refine ⟨hmem, htag, hversion, ?_, written, ?_⟩
      · rw [← hlocate]
        refine Disk.locate_congr hhome fun place hplace => hkind ?_
        rintro ⟨more, rfl⟩
        rw [Disk.way_congr h.home, List.append_assoc] at hplace
        by_cases hnames : names ++ more = []
        · exact hprefix ((List.append_eq_nil_iff.1 hnames).1 ▸ List.nil_prefix)
        · rcases hdirect.names_of_mem_way htag.1 hnames hplace with heq | heq
          · have htagged : names <+: [tag] := heq ▸ List.prefix_append names more
            exact hprefix (htagged.trans (List.prefix_append [tag] [fileName path]))
          · exact hprefix (heq ▸ List.prefix_append names more)
      · exact (h.wellFormed.node?_erase_eq_file_iff hnode).2
          ⟨mt (List.prefix_append_right_inj _).1 hprefix, hheld⟩

/-- Clearing the cache, or one tag of it, clears the ledger. -/
theorem clear {cleared : Option String} (h : Mirrors directory paths first ledger d)
    (hdirect : IsDirect first directory)
    (hcleared : ∀ tag, cleared = some tag → IsFileName tag)
    (hrun : Cache.clear d directory cleared = .ok d') :
    Mirrors directory paths first (Operation.note ledger (.clear cleared)) d' := by
  rcases probe_or_erase_of_clear hrun with ⟨hprobe, rfl⟩ | ⟨node, hnode, rfl⟩
  · -- Nothing is there to be removed, so that the ledger has nothing there either.
    refine h.congr fun key => ?_
    obtain ⟨path, tag⟩ := key
    rw [Operation.get?_note_clear]
    split
    next hprefix =>
      cases hget : Table.get? (path, tag) ledger with
      | none => rfl
      | some entry =>
        obtain ⟨changed, changed', htag, hcache⟩ := h.find_of_held hget
        cases cleared with
        | none =>
          rw [clearedPath_none, probe_eq_ok_some.2 hcache] at hprobe
          cases hprobe
        | some other =>
          obtain rfl : other = tag := by simpa using hprefix
          rw [clearedPath_some, probe_eq_ok_some.2 htag] at hprobe
          cases hprobe
    next => rfl
  · rw [lexical_clearedPath d directory fun tag htag => (hcleared tag htag).1,
      Disk.lexical_congr h.home] at hnode ⊢
    exact h.erase hdirect hnode (Operation.get?_note_clear ledger cleared)

/-- What the ledger holds is read. -/
theorem readEntry_of_some (h : Mirrors directory paths first ledger d)
    (hget : Table.get? (path, tag) ledger = some entry) :
    readEntry d directory path tag = .ok entry := by
  obtain ⟨-, -, hversion, hlocate, written, hnode⟩ := h.held path tag entry hget
  exact readEntry_eq_ok hlocate hnode hversion

/-- What the ledger does not hold cannot be read. -/
theorem readEntry_of_none (h : Mirrors directory paths first ledger d) (hdistinct : Distinct paths)
    (hpath : path ∈ paths) (htag : IsFileName tag) (hnul : '\x00' ∉ directory.toList)
    (hget : Table.get? (path, tag) ledger = none) :
    ∃ fault, readEntry d directory path tag = .error (.cache fault) := by
  have hrefused (cause : Disk.Cause) (hbytes : d.readBytes (entryPath directory path tag) =
      .error (.refused cause (entryPath directory path tag))) :
      ∃ fault, readEntry d directory path tag = .error (.cache fault) := by
    simp only [readEntry, Disk.readText, hbytes]
    exact ⟨_, rfl⟩
  cases hlocate : d.locate (entryPath directory path tag) with
  | error fault =>
    obtain ⟨cause, rfl⟩ := Disk.exists_refused_of_locate (nul_not_mem_entryPath hnul htag) hlocate
    exact hrefused cause (by simp only [Disk.readBytes, Disk.find, hlocate])
  | ok location =>
    have hlocation := Disk.eq_lexical_of_locate hlocate
    rw [lexical_entryPath d directory path htag.1, Disk.lexical_congr h.home] at hlocation
    cases hnode : d.node? location with
    | none =>
      exact hrefused .missing (by simp only [Disk.readBytes, Disk.find, hlocate, hnode])
    | some node =>
      cases node with
      | directory changed =>
        exact hrefused .isDirectory (by simp only [Disk.readBytes, Disk.find, hlocate, hnode])
      | file bytes changed =>
        -- A file below the cache directory is an entry of the ledger, and of this source.
        have hkind : d.kind? location = some true := Disk.kind?_eq_some_true.2 ⟨_, _, hnode⟩
        rw [hlocation] at hkind
        rcases h.below _ (by simp) _ hkind with ⟨hfile, -⟩ | ⟨other, tag', entry, hget', heq⟩
        · cases hfile
        · simp only [List.cons.injEq, and_true] at heq
          obtain ⟨hmem, -⟩ := h.held other tag' entry hget'
          rw [← heq.1, ← hdistinct path hpath other hmem heq.2, hget] at hget'
          cases hget'

end Mirrors

end StyleBundle.Cache
