import StyleBundle.Proofs.Cache.Ledger

/-!
# Reading is looking up

Whatever is written, cleared and read, reading an entry afterwards is looking it up in the ledger.
No operation but reading fails, as long as the way to the cache directory is open and no path is too
long, so that the ledger holds everything that was written and not cleared.
-/

namespace StyleBundle.Cache

open Disk (IsFileName)

variable {directory path tag : String} {paths : List String} {first d d' : Disk} {ledger : Ledger}
  {entry : Entry} {op : Operation} {ops : List Operation} {state : Disk × Ledger}

/-- What an operation does not concern stays in the ledger as it is. -/
theorem Operation.get?_note_of_spares (hspares : op.Spares path tag) (ledger : Ledger) :
    Table.get? (path, tag) (op.note ledger) = Table.get? (path, tag) ledger := by
  cases op with
  | write sheet sourceMap other => exact Table.get?_put_of_ne _ ledger hspares
  | clear cleared =>
    cases cleared with
    | none => exact hspares.elim
    | some other =>
      have hother : other ≠ tag := hspares
      rw [Operation.get?_note_clear, if_neg (by simpa using hother)]
  | read => rfl

section Limited

variable [Limits]

/-! ## Operations that succeed -/

/-- An operation that works on a path which fits. -/
def Operation.Fits (directory : String) : Operation → Prop
  | .write sheet _ tag => Disk.Fits (entryPath directory sheet.path tag)
  | .clear tag => Disk.Fits (clearedPath directory tag)
  | .read .. => True

namespace Mirrors

/-- No file stands on the way to the cache directory, if none did at the start. -/
theorem kind?_ne_of_mem_way (h : Mirrors directory paths first ledger d)
    (hdirect : IsDirect first directory) (hopen : first.IsOpen (Path.tidy directory))
    {place : Location} (hplace : place ∈ d.way directory) : d.kind? place ≠ some true := by
  rw [Disk.way_congr h.home] at hplace
  intro hfile
  by_cases hprefix : first.lexical directory <+: place
  · rw [hdirect place hplace hprefix] at hfile
    exact h.top hfile
  · exact hopen.free place (by rwa [Disk.way_tidy]) (h.elsewhere place hprefix hfile)

/-- The way to what is cleared stays open. -/
theorem isOpen_clearedPath (h : Mirrors directory paths first ledger d)
    (hdirect : IsDirect first directory) (hopen : first.IsOpen (Path.tidy directory))
    {cleared : Option String} (hcleared : ∀ tag, cleared = some tag → IsFileName tag)
    (hfits : Disk.Fits (clearedPath directory cleared)) :
    d.IsOpen (clearedPath directory cleared) := by
  cases cleared with
  | none =>
    refine ⟨hopen.nul, hfits, hopen.short, fun place hplace => ?_⟩
    exact h.kind?_ne_of_mem_way hdirect hopen (by rwa [clearedPath_none, Disk.way_tidy] at hplace)
  | some tag =>
    have htag := hcleared tag rfl
    rw [clearedPath_some] at hfits ⊢
    refine ⟨?_, hfits, ?_, ?_⟩
    · intro hnul
      rw [← Path.child_tidy directory htag.1] at hnul
      rcases Path.mem_or_mem_of_mem_child htag.1 (by decide) (by decide) hnul with hnul | hnul
      · exact hopen.nul hnul
      · exact htag.2.1 hnul
    · intro name hname
      rw [Path.names_child directory htag.1, ← Path.names_tidy] at hname
      rcases List.mem_append.1 hname with hname | hname
      · exact hopen.short name hname
      · rw [List.mem_singleton.1 hname]
        exact htag.2.2
    · intro place hplace
      rw [Disk.way_child d directory htag.1] at hplace
      rcases List.mem_append.1 hplace with hplace | hplace
      · exact h.kind?_ne_of_mem_way hdirect hopen hplace
      · intro hfile
        rw [List.mem_singleton.1 hplace, Disk.lexical_congr h.home] at hfile
        rcases h.below [tag] (by simp) true hfile with ⟨hdirectory, -⟩ | ⟨_, _, _, -, heq⟩
        · cases hdirectory
        · simp at heq

/-- Nothing but a file can stand where an entry is to be written, once the directory of its tag is
made. -/
theorem kind?_entry_ne (h : Mirrors directory paths first ledger d)
    (hdirect : IsDirect first directory) (path : String) (htag : IsFileName tag) {made : Disk}
    (hmade : d.makeDirectories (Path.child directory tag) = .ok made) :
    made.kind? (first.lexical directory ++ [tag, fileName path]) ≠ some false := by
  obtain ⟨hmaking, -⟩ := h.wellFormed.makeDirectoriesWithin hmade
  intro hdirectory
  cases hold : d.kind? (first.lexical directory ++ [tag, fileName path]) with
  | some isFile =>
    have hstays := hmaking.kind?_of_some (by simp) hold
    obtain rfl : isFile = false := Option.some.inj (hstays.symm.trans hdirectory)
    rcases h.below _ (by simp) _ hold with ⟨-, other, heq⟩ | ⟨other, tag', entry, hget, heq⟩
    · simp at heq
    · obtain ⟨-, -, -, -, written, hnode⟩ := h.held other tag' entry hget
      rw [← heq] at hnode
      rw [Disk.kind?, hnode] at hold
      cases hold
  | none =>
    have hnew : (made.node? (first.lexical directory ++ [tag, fileName path])).isSome = true := by
      obtain ⟨node, hnode, -⟩ := Option.map_eq_some_iff.1 hdirectory
      rw [hnode]
      rfl
    have hway := (h.wellFormed.isSome_of_makeDirectories hmade hnew).resolve_left
      (by simp [Disk.kind?_eq_none.1 hold])
    rw [Disk.way_child d directory htag.1, Disk.way_congr h.home, Disk.lexical_congr h.home] at hway
    rcases List.mem_append.1 hway with hway | hway
    · have htop := hdirect _ hway (List.prefix_append _ _)
      simp at htop
    · simp at hway

/-- Any entry can be written whose path fits. -/
theorem exists_write (h : Mirrors directory paths first ledger d)
    (hdirect : IsDirect first directory) (hopen : first.IsOpen (Path.tidy directory))
    (entry : Entry) (htag : IsFileName entry.tag)
    (hfits : Disk.Fits (entryPath directory entry.path entry.tag)) :
    ∃ d', writeEntry d directory entry = .ok d' := by
  have hnamed : ∀ tag, some entry.tag = some tag → IsFileName tag := by
    rintro _ ⟨⟩
    exact htag
  have htidy := Path.tidy_child directory htag.1
  have hbase : Disk.Fits (Path.child directory entry.tag) :=
    htidy ▸ hfits.of_child (isName_fileName entry.path)
  have hopen' : d.IsOpen (Path.child directory entry.tag) :=
    h.isOpen_clearedPath hdirect hopen hnamed hbase
  obtain ⟨made, hmade, hlocate, hdirectory⟩ := h.wellFormed.exists_makeDirectories htidy hopen'
  obtain ⟨hmaking, hwell⟩ := h.wellFormed.makeDirectoriesWithin hmade
  have hentry := hwell.locate_child (isFileName_fileName entry.path) htidy hfits hlocate hdirectory
  rw [Disk.lexical_child d directory htag.1, Disk.lexical_congr h.home, List.append_assoc] at hentry
  exact exists_writeEntry_of_makeDirectories htag.1 hmade hentry
    (h.kind?_entry_ne hdirect entry.path htag hmade)

/-! ## Performing operations -/

/-- An operation leaves a disk that mirrors the ledger, whether it succeeds or not. -/
theorem perform (h : Mirrors directory paths first state.2 state.1)
    (hdirect : IsDirect first directory) (hdistinct : Distinct paths) (hop : op.IsOn paths) :
    Mirrors directory paths first (perform directory state op).2
      (perform directory state op).1 := by
  unfold Cache.perform
  cases op with
  | write sheet sourceMap tag =>
    simp only [Operation.run]
    rcases attemptEntry_cases state.1 directory (entryOf sheet sourceMap tag) with
      ⟨d', hattempt, hwritten⟩ | ⟨failure, hattempt⟩
    · rw [hattempt]
      exact h.write hdirect hdistinct hop.1 hop.2 rfl hwritten
    · have hparent := parent_entryPath directory (entryOf sheet sourceMap tag).path hop.2.1
      rw [hattempt]
      exact hparent ▸ h.attempt hdirect hop.2.1
  | clear cleared =>
    simp only [Operation.run]
    cases hrun : Cache.clear state.1 directory cleared with
    | error failure => exact h
    | ok d' =>
      refine h.clear hdirect ?_ hrun
      rintro tag rfl
      exact hop
  | read path tag =>
    simp only [Operation.run]
    cases readEntry state.1 directory path tag <;> exact h

/-- Operations leave a disk that mirrors the ledger. -/
theorem foldl_perform (state : Disk × Ledger) (h : Mirrors directory paths first state.2 state.1)
    (hdirect : IsDirect first directory) (hdistinct : Distinct paths)
    (hops : ∀ op ∈ ops, op.IsOn paths) :
    Mirrors directory paths first (ops.foldl (Cache.perform directory) state).2
      (ops.foldl (Cache.perform directory) state).1 := by
  induction ops generalizing state with
  | nil => exact h
  | cons op rest ih =>
    exact ih _ (h.perform hdirect hdistinct (hops op (List.mem_cons_self ..)))
      fun other hother => hops other (List.mem_cons_of_mem _ hother)

/-- Where the way to the cache directory is open and the path fits, an operation is noted in full:
nothing fails but reading. -/
theorem ledger_perform (h : Mirrors directory paths first state.2 state.1)
    (hdirect : IsDirect first directory) (hopen : first.IsOpen (Path.tidy directory))
    (hop : op.IsOn paths) (hfits : op.Fits directory) :
    (Cache.perform directory state op).2 = op.note state.2 := by
  unfold Cache.perform
  cases op with
  | write sheet sourceMap tag =>
    obtain ⟨d', hwritten⟩ := h.exists_write hdirect hopen (entryOf sheet sourceMap tag) hop.2 hfits
    simp only [Operation.run, attemptEntry_of_writeEntry hwritten]
  | clear cleared =>
    have hcleared : ∀ tag, cleared = some tag → IsFileName tag := by
      rintro tag rfl
      exact hop
    obtain ⟨d', hrun⟩ :=
      exists_clear_of_isOpen (h.isOpen_clearedPath hdirect hopen hcleared hfits)
    simp only [Operation.run, hrun]
  | read path tag =>
    simp only [Operation.run]
    cases readEntry state.1 directory path tag <;> rfl

/-- Where the way to the cache directory is open and all paths fit, everything is noted. -/
theorem ledger_foldl_perform (state : Disk × Ledger)
    (h : Mirrors directory paths first state.2 state.1)
    (hdirect : IsDirect first directory) (hopen : first.IsOpen (Path.tidy directory))
    (hdistinct : Distinct paths) (hops : ∀ op ∈ ops, op.IsOn paths)
    (hfits : ∀ op ∈ ops, op.Fits directory) :
    (ops.foldl (Cache.perform directory) state).2 = ops.foldl Operation.note state.2 := by
  induction ops generalizing state with
  | nil => rfl
  | cons op rest ih =>
    have hop := hops op (List.mem_cons_self ..)
    have hpath := hfits op (List.mem_cons_self ..)
    rw [List.foldl_cons, List.foldl_cons, ← h.ledger_perform hdirect hopen hop hpath]
    exact ih _ (h.perform hdirect hdistinct hop)
      (fun other hother => hops other (List.mem_cons_of_mem _ hother))
      fun other hother => hfits other (List.mem_cons_of_mem _ hother)

/-- An entry is read exactly if the ledger holds it. -/
theorem readEntry_eq_ok_iff (h : Mirrors directory paths first ledger d)
    (hdistinct : Distinct paths) (hpath : path ∈ paths) (htag : IsFileName tag)
    (hnul : '\x00' ∉ directory.toList) :
    readEntry d directory path tag = .ok entry ↔ Table.get? (path, tag) ledger = some entry := by
  refine ⟨fun hread => ?_, h.readEntry_of_some⟩
  cases hget : Table.get? (path, tag) ledger with
  | some other =>
    rw [h.readEntry_of_some hget] at hread
    rw [Except.ok.inj hread]
  | none =>
    obtain ⟨fault, hfault⟩ := h.readEntry_of_none hdistinct hpath htag hnul hget
    rw [hfault] at hread
    cases hread

end Mirrors

/-- The cache is a table of entries by source and tag. Whatever is written, cleared and read,
starting without a cache directory, an entry is read exactly if the ledger holds it, and whatever
else is read is a fault of the cache; an operation on other keys does not change what is read; and
where nothing is in the way to the cache directory and no path is too long, the ledger holds
everything that was written and not cleared since. -/
theorem readEntry_performAll (hd : d.WellFormed) (hmissing : d.node? (d.lexical directory) = none)
    (hdirect : IsDirect d directory) (hnul : '\x00' ∉ directory.toList)
    (hdistinct : Distinct paths) (hops : ∀ op ∈ ops, op.IsOn paths) (hpath : path ∈ paths)
    (htag : IsFileName tag) :
    (∀ entry, readEntry (performAll directory d ops).1 directory path tag = .ok entry ↔
        Table.get? (path, tag) (performAll directory d ops).2 = some entry) ∧
      (Table.get? (path, tag) (performAll directory d ops).2 = none → ∃ fault,
        readEntry (performAll directory d ops).1 directory path tag = .error (.cache fault)) ∧
      (∀ op : Operation, op.IsOn paths → op.Spares path tag → ∀ entry,
        readEntry (perform directory (performAll directory d ops) op).1 directory path tag =
            .ok entry ↔
          readEntry (performAll directory d ops).1 directory path tag = .ok entry) ∧
      (d.IsOpen (Path.tidy directory) → (∀ op ∈ ops, op.Fits directory) →
        (performAll directory d ops).2 = ops.foldl Operation.note []) := by
  have hstart : Mirrors directory paths d [] d := .start hd hmissing
  have hmirrors : Mirrors directory paths d (performAll directory d ops).2
      (performAll directory d ops).1 :=
    Mirrors.foldl_perform (d, []) hstart hdirect hdistinct hops
  have hread (entry : Entry) : readEntry (performAll directory d ops).1 directory path tag =
      .ok entry ↔ Table.get? (path, tag) (performAll directory d ops).2 = some entry :=
    hmirrors.readEntry_eq_ok_iff hdistinct hpath htag hnul
  refine ⟨hread, hmirrors.readEntry_of_none hdistinct hpath htag hnul, ?_, ?_⟩
  · intro op hop hspares entry
    have hmirrors' := hmirrors.perform hdirect hdistinct hop
    rw [hmirrors'.readEntry_eq_ok_iff hdistinct hpath htag hnul, hread]
    unfold perform
    split
    · rw [Operation.get?_note_of_spares hspares]
    · rfl
  · intro hopen hfits
    exact Mirrors.ledger_foldl_perform (d, []) hstart hdirect hopen hdistinct hops hfits

end Limited

/-- Where nothing is bounded, every operation works on a path that fits. -/
theorem Operation.fits_unlimited (op : Operation) (directory : String) : op.Fits directory := by
  cases op with
  | write => exact Disk.fits_unlimited _
  | clear => exact Disk.fits_unlimited _
  | read => trivial

/-- A disk with nothing on it. -/
def bare : Disk := Disk.empty [] ⟨0⟩

theorem wellFormed_bare : bare.WellFormed :=
  .of_nodes (by decide +kernel) (by decide +kernel) (by decide +kernel)

/-- A stylesheet without a text. -/
def blank : Sheet := .fresh "/a.scss" "a.scss"

/-- The stylesheet is written under one tag, and another tag is cleared. -/
def writeAndClear : List Operation :=
  [.write blank (some "\n\"\\") "u", .clear (some "t")]

/-- The entry that is written. -/
def blankEntry : Entry := entryOf blank (some "\n\"\\") "u"

theorem isOn_writeAndClear : ∀ op ∈ writeAndClear, op.IsOn ["/a.scss"] := by
  simp only [writeAndClear, List.mem_cons, List.not_mem_nil, or_false, forall_eq_or_imp,
    forall_eq, Operation.IsOn]
  decide +kernel

theorem distinct_singleton (path : String) : Distinct [path] := by
  intro first hfirst second hsecond _
  rw [List.mem_singleton.1 hfirst, List.mem_singleton.1 hsecond]

/-- The entry is read under the one tag, and none is found under the other. -/
theorem readEntry_performAll_bare :
    bare.WellFormed ∧ bare.node? (bare.lexical "/c") = none ∧ IsDirect bare "/c" ∧
    (∀ op ∈ writeAndClear, op.IsOn ["/a.scss"]) ∧
    readEntry (performAll "/c" bare writeAndClear).1 "/c" "/a.scss" "u" = .ok blankEntry ∧
    ∃ fault, readEntry (performAll "/c" bare writeAndClear).1 "/c" "/a.scss" "t" =
      .error (.cache fault) := by
  have hmissing : bare.node? (bare.lexical "/c") = none := by decide +kernel
  have hdirect : IsDirect bare "/c" := by
    unfold IsDirect
    decide +kernel
  have hopen : bare.IsOpen (Path.tidy "/c") :=
    ⟨by decide +kernel, Disk.fits_unlimited _, by decide +kernel, by decide +kernel⟩
  have hfits : ∀ op ∈ writeAndClear, op.Fits "/c" := fun op _ => Operation.fits_unlimited op "/c"
  have hnul : '\x00' ∉ "/c".toList := by decide
  have hmem : "/a.scss" ∈ ["/a.scss"] := List.mem_singleton_self _
  have htags : IsFileName "u" ∧ IsFileName "t" := by decide +kernel
  obtain ⟨hwritten, -, -, hnoted⟩ := readEntry_performAll wellFormed_bare hmissing hdirect hnul
    (distinct_singleton "/a.scss") isOn_writeAndClear hmem htags.1
  obtain ⟨-, hcleared, -⟩ := readEntry_performAll wellFormed_bare hmissing hdirect hnul
    (distinct_singleton "/a.scss") isOn_writeAndClear hmem htags.2
  rw [hnoted hopen hfits] at hwritten hcleared
  exact ⟨wellFormed_bare, hmissing, hdirect, isOn_writeAndClear, (hwritten _).2 rfl, hcleared rfl⟩

/-- An entry that was written and not cleared need not be found again: here the way to the cache
directory leads through the directory of another tag, which is removed. And where the path of the
cache directory holds a NUL, reading fails in another way than by a fault of the cache. -/
theorem exists_lost_entry : ∃ d d' : Disk,
    bare.WellFormed ∧ bare.node? (bare.lexical "/c/t/..") = none ∧
    (∀ op ∈ writeAndClear, op.IsOn ["/a.scss"]) ∧ Distinct ["/a.scss"] ∧
    writeEntry bare "/c/t/.." blankEntry = .ok d ∧ Cache.clear d "/c/t/.." (some "t") = .ok d' ∧
    performAll "/c/t/.." bare writeAndClear = (d', [(("/a.scss", "u"), blankEntry)]) ∧
    readEntry d' "/c/t/.." "/a.scss" "u" =
      .error (.cache (.unreadable (entryPath "/c/t/.." "/a.scss" "u")
        (.refused .missing (entryPath "/c/t/.." "/a.scss" "u")))) ∧
    readEntry bare "/c\x00" "/a.scss" "u" = .error (.disk (.nul none)) := by
  have hfacts : (writeEntry bare "/c/t/.." blankEntry).toOption.any (fun d =>
      (Cache.clear d "/c/t/.." (some "t")).toOption.any fun d' =>
        decide (readEntry d' "/c/t/.." "/a.scss" "u" =
          .error (.cache (.unreadable (entryPath "/c/t/.." "/a.scss" "u")
            (.refused .missing (entryPath "/c/t/.." "/a.scss" "u")))))) = true := by decide +kernel
  obtain ⟨d, hd, hfacts⟩ := exists_ok_of_any hfacts
  obtain ⟨d', hd', hfacts⟩ := exists_ok_of_any hfacts
  have hperformed : performAll "/c/t/.." bare writeAndClear =
      (d', [(("/a.scss", "u"), blankEntry)]) := by
    have hattempt := attemptEntry_of_writeEntry hd
    rw [blankEntry] at hattempt
    simp only [performAll, writeAndClear, List.foldl_cons, List.foldl_nil, perform, Operation.run,
      hattempt, hd']
    rfl
  exact ⟨d, d', wellFormed_bare, by decide +kernel, isOn_writeAndClear, distinct_singleton _, hd,
    hd', hperformed, of_decide_eq_true hfacts, by decide +kernel⟩

end StyleBundle.Cache
