import StyleBundle.Proofs.Import.Order

/-!
# What comes of flattening

Flattening fails exactly if one of the reads in order is fatal, as the first of them does. What is
missing in both dialects counts as empty: if it is made as an empty file, the outcome stays the same,
as long as no path is read that leads through it.
-/

namespace StyleBundle

namespace Disk

variable {d d' : Disk} {location : Location} {path : String}

/-- An empty file has been made where nothing stood. -/
structure Gains (location : Location) (d d' : Disk) : Prop where
  /-- The working directory is the same. -/
  home : d'.home = d.home
  /-- Nothing stood there. -/
  absent : d.node? location = none
  /-- An empty file stands there. -/
  present : ∃ stamp, d'.node? location = some (.file [] stamp)
  /-- Files elsewhere are the same. -/
  files : ∀ other ≠ location, ∀ bytes stamp,
    d'.node? other = some (.file bytes stamp) ↔ d.node? other = some (.file bytes stamp)
  /-- What stands elsewhere is of the same kind. -/
  kinds : ∀ other ≠ location, d'.kind? other = d.kind? other

/-- Writing nothing to where nothing stands makes an empty file. -/
theorem WellFormed.gains (hd : d.WellFormed) (hlocate : d.locate path = .ok location)
    (habsent : d.node? location = none) (h : d.writeBytes path [] = .ok d') :
    Gains location d d' := by
  obtain ⟨other, hother, hevolves, -, hpresent, -⟩ := hd.writeBytes h
  obtain rfl := Except.ok.inj (hlocate.symm.trans hother)
  refine ⟨hevolves.home, habsent, ⟨_, hpresent⟩, fun other hne => hevolves.files other hne,
    fun other hne => ?_⟩
  rw [Disk.writeBytes, hlocate] at h
  simp only [habsent, Except.ok.injEq] at h
  subst h
  rcases node?_place_of_ne hne (Node.file [] d.clock) with hsame | ⟨hstamped, rfl⟩
  · rw [kind?, kind?, hsame]
  · obtain ⟨hparent, -⟩ := hd.hasDirectory_of_locate hlocate
    rw [kind?_eq_some_false.2 hparent, kind?_eq_some_false]
    exact hasDirectory_iff.2 ⟨_, hstamped⟩

namespace Gains

variable (h : Gains location d d') (hthrough : location ∉ d.through path)

include h hthrough

/-- A path that does not lead through the new file leads where it did. -/
theorem locate_eq : d'.locate path = d.locate path :=
  locate_congr_of_through h.home fun place hplace =>
    h.kinds place fun heq => hthrough (heq ▸ hplace)

/-- The new file is empty. -/
theorem readText_of_eq (hlocate : d.locate path = .ok location) : d'.readText path = .ok "" := by
  obtain ⟨stamp, hpresent⟩ := h.present
  have hbytes : d'.readBytes path = .ok [] :=
    readBytes_eq_ok_iff.2 ⟨location, stamp, (h.locate_eq hthrough).trans hlocate, hpresent⟩
  have hreturn : '\r' ∉ "".toList := by decide
  rw [readText, hbytes]
  exact textOf_encode hreturn

/-- What leads elsewhere is read as before. -/
theorem readText_of_ne (hlocate : d.locate path ≠ .ok location) :
    d'.readText path = d.readText path := by
  have hbytes : d'.readBytes path = d.readBytes path := by
    unfold readBytes find
    rw [h.locate_eq hthrough]
    cases hplace : d.locate path with
    | error fault => rfl
    | ok place =>
      have hne : place ≠ location := by
        rintro rfl
        exact hlocate hplace
      have hkind := h.kinds place hne
      cases hnode : d.node? place with
      | none => simp only [hnode, kind?_eq_none.1 (hkind.trans (kind?_eq_none.2 hnode))]
      | some node =>
        cases node with
        | file bytes stamp => simp only [hnode, (h.files place hne bytes stamp).2 hnode]
        | directory stamp =>
          rw [kind?_eq_some_false.2 (hasDirectory_iff.2 ⟨stamp, hnode⟩), kind?_eq_some_false,
            hasDirectory_iff] at hkind
          obtain ⟨_, hnode'⟩ := hkind
          simp only [hnode, hnode']
  rw [readText, readText, hbytes]

end Gains

/-- A path that leads to nothing ends in a name, and the rest of it leads to the directory that the
name is missing from. -/
theorem WellFormed.exists_missing_name (hd : d.WellFormed) (hlocate : d.locate path = .ok location)
    (habsent : d.node? location = none) : ∃ front last above, Path.segments path = front ++ [last] ∧
      location = above ++ [last] ∧
      ∀ segment, d.walk (d.start path) (front ++ [segment]) = d.walk above [segment] := by
  obtain ⟨front, last, hsegments⟩ := Import.exists_segments_eq path
  have hwalk := (locate_eq_ok_iff.1 hlocate).2.2.2
  rw [hsegments, Disk.walk_append] at hwalk
  cases hfront : d.walk (d.start path) front with
  | error cause =>
    rw [hfront] at hwalk
    cases hwalk
  | ok above =>
    rw [hfront] at hwalk
    refine ⟨front, last, above, hsegments, ?_, fun segment => by
      rw [Disk.walk_append, hfront]
      rfl⟩
    change d.walk above [last] = .ok location at hwalk
    unfold walk at hwalk
    split at hwalk
    · cases hwalk
    · cases hwalk
    next stamp hnode =>
      split at hwalk
      next =>
        obtain rfl := Except.ok.inj hwalk
        cases hnode.symm.trans habsent
      next =>
        split at hwalk
        next =>
          obtain rfl := Except.ok.inj hwalk
          obtain ⟨_, hparent⟩ := hasDirectory_iff.1 (hd.parent _ _ hnode)
          cases hparent.symm.trans habsent
        next =>
          split at hwalk
          · cases hwalk
          · exact (Except.ok.inj hwalk).symm

end Disk

namespace Import

variable {d d' : Disk} {root extension path : String} {depth : ℕ} {run : Flattening}
  {failure : Failure}

/-! ## Fatal reads -/

/-- A read is fatal: the path is not missing and cannot be opened or decoded, or it is missing and
its counterpart can be opened but not decoded. -/
def IsFatal (d : Disk) (path : String) (failure : Failure) : Prop :=
  d.readText path = .error failure ∧ ¬ IsMissing d path ∨
    IsMissing d path ∧ ∃ bytes fault, d.readBytes (counterpart path) = .ok bytes ∧
      Text.Utf8.decode bytes = .error fault ∧ failure = .undecodable fault

/-- A read contributes no text exactly if it is fatal. -/
theorem text_read_eq_error_iff : (read d path).text = .error failure ↔ IsFatal d path failure := by
  constructor
  · intro h
    have hgoes := goes d path
    generalize read d path = reading at h hgoes
    cases hgoes with
    | direct | swapped | unresolved => cases h
    | first hfails hstands =>
      obtain rfl := Except.error.inj h
      refine .inl ⟨hfails, ?_⟩
      rintro ⟨file, hmissing⟩
      exact hstands file (Except.error.inj (hfails.symm.trans hmissing))
    | second hmissing hfails hstands =>
      obtain rfl := Except.error.inj h
      obtain ⟨cause, rfl⟩ | hescapes := Cache.refused_or_escapes_of_readText hfails
      · exact absurd rfl (hstands _ _)
      · refine .inr ⟨hmissing, ?_⟩
        cases hescapes with
        | undecodable hbytes hdecode => exact ⟨_, _, hbytes, hdecode, rfl⟩
        | nul hnul =>
          obtain ⟨file, hmissing⟩ := hmissing
          have hself : d.readText path = .error (.disk (.nul none)) :=
            (Cache.Escapes.nul (nul_mem_counterpart.1 hnul) : Cache.Escapes d path _).readText_eq
          cases hself.symm.trans hmissing
  · rintro (⟨hfails, hstands⟩ | ⟨hmissing, bytes, fault, hbytes, hdecode, rfl⟩)
    · rw [goes_iff.1 (.first hfails fun file heq => hstands ⟨file, heq ▸ hfails⟩)]
      rfl
    · have htext : d.readText (counterpart path) = .error (.undecodable fault) :=
        (Cache.Escapes.undecodable hbytes hdecode : Cache.Escapes d _ _).readText_eq
      rw [goes_iff.1 (.second hmissing htext fun _ _ heq => by cases heq)]
      rfl

/-! ## A missing file that is made -/

section Made

variable {file : String} {location : Location}

/-- A path that leads somewhere is missing exactly if nothing stands there. -/
theorem isMissing_iff (hlocate : d.locate path = .ok location) :
    IsMissing d path ↔ d.node? location = none := by
  unfold IsMissing Disk.readText Disk.readBytes Disk.find
  simp only [hlocate]
  cases d.node? location with
  | none => simp
  | some node =>
    cases node with
    | directory stamp => simp
    | file bytes stamp =>
      simp only [Disk.textOf]
      split <;> simp

/-- A path and its counterpart lead through the same places. -/
theorem through_counterpart (d : Disk) (path : String) :
    d.through (counterpart path) = d.through path := by
  rw [Disk.through, Disk.through, Disk.start, Disk.start, isAbsolute_counterpart,
    dropLast_segments_counterpart]

/-- Where two paths lead to the same missing file, so do their counterparts. -/
theorem readBytes_counterpart (hd : d.WellFormed) {bytes : List UInt8}
    (hpath : d.locate path = .ok location) (hfile : d.locate file = .ok location)
    (habsent : d.node? location = none) (h : d.readBytes (counterpart path) = .ok bytes) :
    d.readBytes (counterpart file) = .ok bytes := by
  have hwalk {name : String} (hname : d.locate name = .ok location) : ∃ above last,
      location = above ++ [last] ∧
        d.walk (d.start (counterpart name)) (Path.segments (counterpart name)) =
          d.walk above [counterpart last] := by
    obtain ⟨front, last, above, hsegments, hlocation, hstep⟩ :=
      hd.exists_missing_name hname habsent
    refine ⟨above, last, hlocation, ?_⟩
    rw [segments_counterpart hsegments, Disk.start, isAbsolute_counterpart]
    exact hstep _
  obtain ⟨place, stamp, hplace, hnode⟩ := Disk.readBytes_eq_ok_iff.1 h
  refine Disk.readBytes_eq_ok_iff.2 ⟨place, stamp, ?_, hnode⟩
  obtain ⟨above, last, hlocation, hsteps⟩ := hwalk hpath
  obtain ⟨above', last', hlocation', hsteps'⟩ := hwalk hfile
  obtain ⟨rfl, hlast⟩ := List.append_inj' (hlocation.symm.trans hlocation') rfl
  obtain rfl := List.singleton_inj.1 hlast
  obtain ⟨hnul, hne, -⟩ := Disk.locate_eq_ok_iff.1 hfile
  refine Disk.locate_eq_ok_iff.2 ⟨mt nul_mem_counterpart.1 hnul, fun hempty => hne ?_,
    Disk.fits_unlimited _, ?_⟩
  · rw [← counterpart_counterpart file, hempty]
    rfl
  · rw [hsteps', ← hsteps]
    exact (Disk.locate_eq_ok_iff.1 hplace).2.2.2

/-- A path that leads to a file which is missing in both dialects is missing in both dialects. -/
theorem read_eq_unresolved (hd : d.WellFormed) (hfile : d.locate file = .ok location)
    (habsent : d.node? location = none) (hread : read d file = .unresolved)
    (hpath : d.locate path = .ok location) : read d path = .unresolved := by
  have hgoes := goes_iff.2 hread
  cases hgoes with
  | unresolved _ hrefused =>
    have hunread {bytes : List UInt8} : d.readBytes (counterpart path) ≠ .ok bytes := by
      intro h
      have hbytes := readBytes_counterpart hd hpath hfile habsent h
      rw [Disk.readText, hbytes] at hrefused
      simp only [Disk.textOf] at hrefused
      split at hrefused
      · cases hrefused
      · cases hrefused
    cases htext : d.readText (counterpart path) with
    | ok text =>
      unfold Disk.readText at htext
      split at htext
      next hbytes => exact absurd hbytes hunread
      next => cases htext
    | error failure =>
      obtain ⟨cause, rfl⟩ | hescapes := Cache.refused_or_escapes_of_readText htext
      · exact goes_iff.1 (.unresolved ((isMissing_iff hpath).2 habsent) htext)
      · cases hescapes with
        | undecodable hbytes => exact absurd hbytes hunread
        | nul hnul =>
          exact absurd (nul_mem_counterpart.1 hnul) (Disk.locate_eq_ok_iff.1 hpath).1

/-- A read that does not lead through a file which was missing in both dialects contributes the same
text once the file is made, and empty. -/
theorem text_read_of_gains (hd : d.WellFormed) (hgains : Disk.Gains location d d')
    (hfile : d.locate file = .ok location) (hread : read d file = .unresolved)
    (hthrough : location ∉ d.through path) : (read d' path).text = (read d path).text := by
  have hthrough' : location ∉ d.through (counterpart path) := through_counterpart d path ▸ hthrough
  by_cases hpath : d.locate path = .ok location
  · rw [read_eq_unresolved hd hfile hgains.absent hread hpath,
      goes_iff.1 (.direct (hgains.readText_of_eq hthrough hpath))]
    rfl
  · have hsame := hgains.readText_of_ne hthrough hpath
    have hmissing (h : IsMissing d path) : IsMissing d' path := by
      obtain ⟨name, h⟩ := h
      exact ⟨name, hsame.trans h⟩
    have hother (h : ∀ name, d.readText (counterpart path) ≠
        .error (.disk (.refused .missing name))) :
        d'.readText (counterpart path) = d.readText (counterpart path) := by
      refine hgains.readText_of_ne hthrough' fun hlocate => ?_
      obtain ⟨name, hmissing⟩ := (isMissing_iff hlocate).2 hgains.absent
      exact h name hmissing
    have hgoes := goes d path
    generalize read d path = reading at hgoes ⊢
    cases hgoes with
    | direct h => rw [goes_iff.1 (.direct (hsame.trans h))]
    | first h hstands => rw [goes_iff.1 (.first (hsame.trans h) hstands)]
    | swapped h hswapped =>
      rw [goes_iff.1 (.swapped (hmissing h) ((hother (by simp [hswapped])).trans hswapped))]
    | second h hfails hstands =>
      have hstill := (hother fun name heq => hstands _ _
        (Except.error.inj (hfails.symm.trans heq))).trans hfails
      rw [goes_iff.1 (.second (hmissing h) hstill hstands)]
    | unresolved h hrefused =>
      by_cases hlocate : d.locate (counterpart path) = .ok location
      · rw [goes_iff.1 (.swapped (hmissing h) (hgains.readText_of_eq hthrough' hlocate))]
        rfl
      · rw [goes_iff.1 (.unresolved (hmissing h)
          ((hgains.readText_of_ne hthrough' hlocate).trans hrefused))]

end Made

/-! ## Outcomes -/

/-- Replacing statements gives the same where flattening their targets does. -/
theorem result_replaceStatements_congr {f g : String → Flattening} {statements : List Statement}
    (h : ∀ statement ∈ statements, (g statement.target).result = (f statement.target).result)
    (s : List Char) :
    (replaceStatements g statements s).result = (replaceStatements f statements s).result := by
  induction statements generalizing s with
  | nil => rfl
  | cons statement rest ih =>
    obtain ⟨hfirst, hrest⟩ := List.forall_mem_cons.1 h
    cases hresult : (f statement.target).result with
    | error failure =>
      rw [replaceStatements_of_error hresult, replaceStatements_of_error (hfirst.trans hresult)]
    | ok text =>
      rw [replaceStatements_of_ok hresult, replaceStatements_of_ok (hfirst.trans hresult)]
      exact ih hrest _

/-- Flattening gives the same where the paths in the order contribute the same texts. -/
theorem Preorder.result_congr {order : List String} (h : Preorder d root extension path order)
    (hsame : ∀ file ∈ order, (read d' file).text = (read d file).text) (depth : ℕ) :
    (flattenWithin d' root extension depth path).result =
      (flattenWithin d root extension depth path).result := by
  induction h generalizing depth with
  | @intro path inner _ ih =>
    have hself : sourceText d' extension path = sourceText d extension path :=
      hsame _ (List.mem_cons_self ..)
    cases depth with
    | zero => rfl
    | succ depth =>
      cases htext : sourceText d extension path with
      | error failure =>
        rw [flattenWithin_of_error htext, flattenWithin_of_error (hself.trans htext)]
      | ok text =>
        rw [flattenWithin_of_ok htext, flattenWithin_of_ok (hself.trans htext)]
        refine result_replaceStatements_congr (fun statement hstatement => ?_) _
        rw [← statementsAt_of_ok htext] at hstatement
        refine ih statement hstatement (fun file hfile => hsame file ?_) depth
        exact List.mem_cons_of_mem _ (List.mem_flatMap.2 ⟨statement, hstatement, hfile⟩)

/-- The first fatal read of those in the order decides the outcome. If there is one, flattening
fails as that read does and reads nothing after it; if there is none, everything in the order is read
and there is a text. The text stays the same if a file that is missing in both dialects is made
empty, unless a path that is read leads through it. -/
theorem fails_as_first_fatal_read (hd : d.WellFormed)
    (hacyclic : Acc (Function.swap (Reads d root extension)) path) :
    ∃ run order, Ends d root extension path run ∧ Preorder d root extension path order ∧
      ((∃ failure, run.result = .error failure) ↔
        ∃ file ∈ order, ∃ failure, IsFatal d file failure) ∧
      (∀ before file after failure, order = before ++ file :: after →
        (∀ earlier ∈ before, ∀ other, ¬ IsFatal d earlier other) → IsFatal d file failure →
          run = ⟨(before ++ [file]).map fun name => (name, read d name), .error failure⟩) ∧
      ((∀ file ∈ order, ∀ failure, ¬ IsFatal d file failure) →
        run.reads = order.map (fun name => (name, read d name)) ∧
          ∀ file d', read d file = .unresolved → d.writeBytes file [] = .ok d' →
            (∀ name ∈ order, d.lexical file ∉ d.through name) →
              ∃ run', Ends d' root extension path run' ∧ run'.result = run.result) := by
  obtain ⟨order, horder⟩ := exists_preorder hacyclic
  obtain ⟨run, hends, hfollows⟩ := horder.exists_ends
  have hnone {files : List String} (h : ∀ file ∈ files, ∀ failure, ¬ IsFatal d file failure) :
      firstFailure? d files = none := by
    refine firstFailure?_eq_none_iff.2 fun file hfile => ?_
    cases htext : (read d file).text with
    | ok text => exact ⟨text, rfl⟩
    | error failure => exact absurd (text_read_eq_error_iff.1 htext) (h file hfile failure)
  refine ⟨run, order, hends, horder, ⟨?_, ?_⟩, ?_, fun hsound => ⟨?_, ?_⟩⟩
  · rintro ⟨failure, hfailure⟩
    obtain ⟨before, file, after, rfl, -, hfails⟩ :=
      exists_of_firstFailure? ((hfollows.failure_iff failure).1 hfailure)
    exact ⟨file, List.mem_append_right _ (List.mem_cons_self ..), failure,
      text_read_eq_error_iff.1 hfails⟩
  · rintro ⟨file, hfile, failure, hfatal⟩
    cases hresult : run.result with
    | error other => exact ⟨other, rfl⟩
    | ok out =>
      obtain ⟨text, htext⟩ :=
        firstFailure?_eq_none_iff.1 (hfollows.exists_ok_iff.1 ⟨out, hresult⟩) file hfile
      cases htext.symm.trans (text_read_eq_error_iff.2 hfatal)
  · rintro before file after failure rfl hbefore hfatal
    have hfails := text_read_eq_error_iff.2 hfatal
    have hgo := hnone hbefore
    have hfirst : firstFailure? d (before ++ file :: after) = some failure := by
      rw [firstFailure?_append, hgo, Option.none_or, firstFailure?_of_error hfails]
    have hreads : run.reads = (before ++ [file]).map fun name => (name, read d name) := by
      rw [hfollows.reads_eq, readsUpTo_append, if_pos hgo, readsUpTo_of_none hgo,
        readsUpTo_of_error hfails, List.map_append, List.map_singleton]
    rw [← hreads, ← (hfollows.failure_iff failure).2 hfirst]
  · rw [hfollows.reads_eq, readsUpTo_of_none (hnone hsound)]
  · intro file d' hread hwrite hthrough
    obtain ⟨location, hlocate, -⟩ := hd.writeBytes hwrite
    obtain rfl := Disk.eq_lexical_of_locate hlocate
    have habsent : d.node? (d.lexical file) = none := by
      cases goes_iff.2 hread with
      | unresolved hmissing => exact (isMissing_iff hlocate).1 hmissing
    have hgains := hd.gains hlocate habsent hwrite
    have hreads (name : String) (hname : name ∈ order) :
        (read d' name).text = (read d name).text :=
      text_read_of_gains hd hgains hlocate hread (hthrough name hname)
    have hsame := horder.result_congr hreads
    obtain ⟨depth, rfl, hne⟩ := hends
    exact ⟨_, ⟨depth, rfl, hsame depth ▸ hne⟩, hsame depth⟩

/-- A stylesheet with imports of two missing files, and in between of one that would stand in a
directory of the first one's name. -/
def gapText : String := "@import 'x';@import 'x.scss/y';@import 'z';"

/-- A disk that holds the stylesheet alone. -/
def gapDisk : Disk where
  nodes := [([], .directory ⟨0⟩), (["s"], .directory ⟨0⟩),
    (["s", "main.scss"], .file (Text.Utf8.encode gapText.toList) ⟨0⟩)]
  home := ["s"]
  clock := ⟨1⟩

theorem wellFormed_gapDisk : gapDisk.WellFormed :=
  .of_nodes (by decide +kernel) (by decide +kernel) (by decide +kernel)

/-- The imports of the stylesheet. -/
def gapStatements : List Statement :=
  [⟨"@import 'x';", "x"⟩, ⟨"@import 'x.scss/y';", "x.scss/y"⟩, ⟨"@import 'z';", "z"⟩]

theorem statements_gapText : statements gapText = gapStatements := by
  have hfirst : parse? ('@' :: "import 'x';".toList ++ ('@' :: "import 'x.scss/y';".toList ++
      ('@' :: "import 'z';".toList ++ []))) = some ("x".toList,
        '@' :: "import 'x.scss/y';".toList ++ ('@' :: "import 'z';".toList ++ [])) := by decide
  have hsecond : parse? ('@' :: "import 'x.scss/y';".toList ++ ('@' :: "import 'z';".toList ++ [])) =
      some ("x.scss/y".toList, '@' :: "import 'z';".toList ++ []) := by decide
  have hthird : parse? ('@' :: "import 'z';".toList ++ []) = some ("z".toList, []) := by decide
  refine (scan_append_of_parse?_eq_some hfirst).trans ?_
  rw [scan_append_of_parse?_eq_some hsecond, scan_append_of_parse?_eq_some hthird,
    scan_eq_nil_of_not_mem (by simp)]
  decide

theorem statementsAt_main (hbytes : d.readBytes "/s/main.scss" =
    .ok (Text.Utf8.encode gapText.toList)) :
    statementsAt d ".scss" "/s/main.scss" = gapStatements := by
  have hmain : sourceText d ".scss" "/s/main.scss" = .ok gapText :=
    sourceText_of_readBytes hbytes (by decide)
  exact (statementsAt_of_ok hmain).trans statements_gapText

theorem read_gapDisk {file : String}
    (hfile : file ∈ ["/s/x.scss", "/s/x.scss/y.scss", "/s/z.scss"]) :
    read gapDisk file = .unresolved := by
  have hboth : gapDisk.readBytes file = .error (.refused .missing file) ∧
      gapDisk.readBytes (counterpart file) = .error (.refused .missing (counterpart file)) := by
    revert file
    decide +kernel
  exact read_of_missing hboth.1 hboth.2

/-- The order in which the stylesheet and those that it names are read. -/
def gapOrder : List String := ["/s/main.scss", "/s/x.scss", "/s/x.scss/y.scss", "/s/z.scss"]

theorem preorder_main (hbytes : d.readBytes "/s/main.scss" = .ok (Text.Utf8.encode gapText.toList))
    (hleaf : ∀ file ∈ ["/s/x.scss", "/s/x.scss/y.scss", "/s/z.scss"],
      statementsAt d ".scss" file = []) :
    Preorder d "/s" ".scss" "/s/main.scss" gapOrder := by
  have horder : gapOrder = entryPath ".scss" "/s/main.scss" :: gapStatements.flatMap fun statement =>
      [entryPath ".scss" (targetPath "/s" ".scss" "/s/main.scss" statement.target)] := by
    decide +kernel
  rw [horder]
  refine .of_statementsAt _ (statementsAt_main hbytes) fun statement hstatement =>
    .of_nil (hleaf _ ?_)
  revert statement
  decide +kernel

theorem firstFailure?_gapDisk : firstFailure? gapDisk gapOrder = none := by
  refine firstFailure?_eq_none_iff.2 fun file hfile => ?_
  rcases List.mem_cons.1 hfile with rfl | hfile
  · have hmain : sourceText gapDisk ".scss" "/s/main.scss" = .ok gapText :=
      sourceText_of_readBytes (by decide +kernel) (by decide)
    exact ⟨gapText, hmain⟩
  · exact ⟨"", by rw [read_gapDisk hfile]; rfl⟩

theorem preorder_gapDisk : Preorder gapDisk "/s" ".scss" "/s/main.scss" gapOrder := by
  refine preorder_main (by decide +kernel) fun file hfile => statementsAt_of_empty ?_
  have hentry : entryPath ".scss" file = file := by
    revert file
    decide
  rw [sourceText, hentry, read_gapDisk hfile]
  rfl

/-- Where the second import is missing and the third too, making the third changes nothing. -/
theorem fails_as_first_fatal_read_gapDisk : gapDisk.WellFormed ∧
    Acc (Function.swap (Reads gapDisk "/s" ".scss")) "/s/main.scss" ∧
      ∃ run d' run', Ends gapDisk "/s" ".scss" "/s/main.scss" run ∧
        gapDisk.writeBytes "/s/z.scss" [] = .ok d' ∧
        Ends d' "/s" ".scss" "/s/main.scss" run' ∧ run'.result = run.result := by
  have hacc := preorder_gapDisk.acc
  obtain ⟨run, order, hends, horder, -, -, hsound⟩ :=
    fails_as_first_fatal_read wellFormed_gapDisk hacc
  obtain rfl := preorder_gapDisk.unique horder
  obtain ⟨-, hmade⟩ := hsound fun file hfile failure hfatal => by
    obtain ⟨text, htext⟩ := firstFailure?_eq_none_iff.1 firstFailure?_gapDisk file hfile
    cases htext.symm.trans (text_read_eq_error_iff.2 hfatal)
  have hwrite : (gapDisk.writeBytes "/s/z.scss" []).toOption.any (fun _ => true) = true := by
    decide +kernel
  obtain ⟨d', hd', -⟩ := Cache.exists_ok_of_any hwrite
  obtain ⟨run', hends', hsame⟩ := hmade "/s/z.scss" d' (read_gapDisk (by simp)) hd'
    (by decide +kernel)
  exact ⟨wellFormed_gapDisk, hacc, run, d', run', hends, hd', hends', hsame⟩

/-- Making the first import makes an end of the flattening: the second one is now looked for behind
a file. -/
theorem outcome_changes_gapDisk :
    Acc (Function.swap (Reads gapDisk "/s" ".scss")) "/s/main.scss" ∧
      ∃ run out d' run', Ends gapDisk "/s" ".scss" "/s/main.scss" run ∧ run.result = .ok out ∧
        ("/s/x.scss", .unresolved) ∈ run.reads ∧ gapDisk.writeBytes "/s/x.scss" [] = .ok d' ∧
        Ends d' "/s" ".scss" "/s/main.scss" run' ∧
        run'.result = .error (.disk (.refused .notDirectory "/s/x.scss/y.scss")) := by
  have hfacts : (gapDisk.writeBytes "/s/x.scss" []).toOption.any (fun d' =>
      decide (d'.readBytes "/s/main.scss" = .ok (Text.Utf8.encode gapText.toList)) &&
        decide (d'.readBytes "/s/x.scss" = .ok []) &&
        decide (d'.readBytes "/s/x.scss/y.scss" =
          .error (.refused .notDirectory "/s/x.scss/y.scss")) &&
        decide (d'.readBytes "/s/z.scss" = .error (.refused .missing "/s/z.scss")) &&
        decide (d'.readBytes "/s/z.sass" = .error (.refused .missing "/s/z.sass"))) = true := by
    decide +kernel
  obtain ⟨d', hd', hfacts⟩ := Cache.exists_ok_of_any hfacts
  simp only [Bool.and_eq_true, decide_eq_true_eq] at hfacts
  obtain ⟨⟨⟨⟨hmain, hx⟩, hy⟩, hz⟩, hz'⟩ := hfacts
  have hmainText : sourceText d' ".scss" "/s/main.scss" = .ok gapText :=
    sourceText_of_readBytes hmain (by decide)
  have hreturn : '\r' ∉ "".toList := by decide
  have hxText : sourceText d' ".scss" "/s/x.scss" = .ok "" := sourceText_of_readBytes hx hreturn
  have hyText : sourceText d' ".scss" "/s/x.scss/y.scss" =
      .error (.disk (.refused .notDirectory "/s/x.scss/y.scss")) := by
    refine text_read_eq_error_iff.2 (.inl ⟨readText_of_refused hy, ?_⟩)
    rintro ⟨file, h⟩
    cases (readText_of_refused hy).symm.trans h
  have hzText : sourceText d' ".scss" "/s/z.scss" = .ok "" :=
    congrArg Reading.text (read_of_missing hz hz')
  have horder : Preorder d' "/s" ".scss" "/s/main.scss" gapOrder := by
    refine preorder_main hmain fun file hfile => ?_
    rcases List.mem_cons.1 hfile with rfl | hfile
    · exact statementsAt_of_empty hxText
    · rcases List.mem_cons.1 hfile with rfl | hfile
      · exact statementsAt_of_error hyText
      · rw [List.mem_singleton.1 hfile]
        exact statementsAt_of_empty hzText
  obtain ⟨run, hends, hfollows⟩ := preorder_gapDisk.exists_ends
  obtain ⟨run', hends', hfollows'⟩ := horder.exists_ends
  obtain ⟨out, hout⟩ := hfollows.exists_ok_iff.2 firstFailure?_gapDisk
  refine ⟨preorder_gapDisk.acc, run, out, d', run', hends, hout, ?_, hd', hends',
    (hfollows'.failure_iff _).2 ?_⟩
  · rw [hfollows.reads_eq, readsUpTo_of_none firstFailure?_gapDisk]
    exact List.mem_map.2 ⟨"/s/x.scss", by simp [gapOrder], by rw [read_gapDisk (by simp)]⟩
  · exact (firstFailure?_of_ok hmainText).trans
      ((firstFailure?_of_ok hxText).trans (firstFailure?_of_error hyText))

end Import

end StyleBundle
