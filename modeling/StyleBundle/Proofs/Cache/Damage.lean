import StyleBundle.Proofs.Cache.Store
import StyleBundle.Proofs.Disk.Way

/-!
# Damaged entries

Whatever stands in the place of an entry, reading it gives an entry of the accepted version or a
fault of the cache, a fault of the cache is a miss, and a miss leaves the stylesheet as it is. The
exceptions are few and are all told here: bytes that are no UTF-8, a NUL in the path, and names and
paths that are too long for the disk. What a text has to hold to make an entry is left to the
library that reads it.
-/

namespace StyleBundle

namespace Cache

variable {d : Disk} {directory path tag : String} {p : Project} {sheet : Sheet} {failure : Failure}

section Limited

variable [Limits]

/-! ## Reading whatever is there -/

/-- Why reading a file that should hold an entry fails without a fault of the cache. -/
inductive Escapes (d : Disk) (file : String) : Failure → Prop
  /-- The bytes are no UTF-8. -/
  | undecodable {bytes : List UInt8} {fault : Text.Utf8.Fault}
      (bytes_eq : d.readBytes file = .ok bytes)
      (decode_eq : Text.Utf8.decode bytes = .error fault) : Escapes d file (.undecodable fault)
  /-- The path holds a NUL. -/
  | nul (mem : '\x00' ∈ file.toList) : Escapes d file (.disk (.nul none))

/-- Reading a text fails for the disk, which refuses or meets a NUL, or for the bytes. -/
theorem refused_or_escapes_of_readText {file : String} (h : d.readText file = .error failure) :
    (∃ cause, failure = .disk (.refused cause file)) ∨ Escapes d file failure := by
  obtain hrefused | ⟨rfl, hnul⟩ | ⟨bytes, fault, rfl, hbytes, hdecode⟩ :=
    Disk.refused_or_nul_or_undecodable h
  · exact .inl hrefused
  · exact .inr (.nul hnul)
  · exact .inr (.undecodable hbytes hdecode)

/-- A text whose reading escapes is not read. -/
theorem Escapes.readText_eq {file : String} (h : Escapes d file failure) :
    d.readText file = .error failure := by
  cases h with
  | undecodable hbytes hdecode => simp only [Disk.readText, hbytes, Disk.textOf, hdecode]
  | nul hnul => simp only [Disk.readText, Disk.readBytes, Disk.find_of_nul hnul]

/-! ## Comparing times -/

/-- Comparing times fails exactly if a path or a name on the way is too long: to the file, or to the
source of a file that is there. -/
theorem isNewer_eq_error {file source : String} {fault : Disk.Fault} :
    isNewer d file source = .error fault ↔
      fault = .refused .longName file ∧ d.find file = .error (.refused .longName file) ∨
      (∃ written, d.find file = .ok written) ∧
        fault = .refused .longName source ∧ d.find source = .error (.refused .longName source) := by
  simp only [← Disk.probe_eq_error, ← probe_eq_ok_some]
  unfold isNewer
  cases hfile : d.probe file with
  | error other => simp
  | ok found =>
    cases found with
    | none => simp
    | some written =>
      cases hsource : d.probe source with
      | error other => simp
      | ok found => cases found <;> simp

/-- Looking for a dependency fails exactly if its path or a name on the way to it is too long. -/
theorem isUnchanged_eq_error {since : Stamp} {dependency : String} {fault : Disk.Fault} :
    isUnchanged d since dependency = .error fault ↔
      fault = .refused .longName (Path.tidy dependency) ∧
        d.find (Path.tidy dependency) = .error (.refused .longName (Path.tidy dependency)) := by
  rw [← Disk.probe_eq_error]
  unfold isUnchanged
  cases hprobe : d.probe (Path.tidy dependency) with
  | error other => simp
  | ok found => cases found <;> simp

/-- Dependencies are looked for up to the first that has changed, or that cannot be looked for. -/
theorem areUnchanged_eq_error {since : Stamp} {dependencies : List String} {fault : Disk.Fault} :
    areUnchanged d since dependencies = .error fault ↔
      ∃ before dependency after, dependencies = before ++ dependency :: after ∧
        areUnchanged d since before = .ok true ∧ isUnchanged d since dependency = .error fault := by
  induction dependencies with
  | nil => simp [areUnchanged]
  | cons dependency rest ih =>
    constructor
    · intro h
      unfold areUnchanged at h
      split at h
      next hunchanged =>
        obtain ⟨before, other, after, rfl, hbefore, hother⟩ := ih.1 h
        refine ⟨dependency :: before, other, after, rfl, ?_, hother⟩
        simp only [areUnchanged, hunchanged, hbefore]
      next => exact ⟨[], dependency, rest, rfl, rfl, h⟩
    · rintro ⟨before, other, after, hsplit, hbefore, hother⟩
      cases before with
      | nil =>
        obtain ⟨rfl, -⟩ := List.cons.inj hsplit
        simp only [areUnchanged, hother]
      | cons first before =>
        obtain ⟨rfl, hrest⟩ := List.cons.inj hsplit
        rw [areUnchanged] at hbefore
        split at hbefore
        next hunchanged =>
          rw [areUnchanged, hunchanged]
          exact ih.2 ⟨before, other, after, hrest, hbefore, hother⟩
        next hchanged => exact absurd hbefore hchanged

/-! ## Entries -/

variable [Entry.Reader]

/-- An entry that is read has the version that is accepted. -/
theorem version_eq_of_readEntry {entry : Entry} (h : readEntry d directory path tag = .ok entry) :
    entry.version = formatVersion := by
  unfold readEntry at h
  simp only at h
  split at h
  · cases h
  · cases h
  · split at h
    · cases h
    · split at h
      next hversion =>
        obtain rfl := Except.ok.inj h
        exact hversion
      · cases h

/-- Reading an entry fails with a fault of the cache, unless it escapes. -/
theorem readEntry_eq_error_iff : readEntry d directory path tag = .error failure ↔
    (∃ fault, failure = .cache fault ∧
        readEntry d directory path tag = .error (.cache fault)) ∨
      Escapes d (entryPath directory path tag) failure := by
  constructor
  · intro h
    cases htext : d.readText (entryPath directory path tag) with
    | error other =>
      rcases refused_or_escapes_of_readText htext with ⟨cause, rfl⟩ | hescapes
      · have hcache := h
        simp only [readEntry, htext] at hcache
        obtain rfl := Except.error.inj hcache
        exact .inl ⟨_, rfl, h⟩
      · refine .inr ?_
        have hsame : readEntry d directory path tag = .error other := by
          cases hescapes <;> simp only [readEntry, htext]
        obtain rfl := Except.error.inj (h.symm.trans hsame)
        exact hescapes
    | ok text =>
      refine .inl ?_
      have hcache := h
      simp only [readEntry, htext] at hcache
      split at hcache
      · obtain rfl := Except.error.inj hcache
        exact ⟨_, rfl, h⟩
      · split at hcache
        · cases hcache
        · obtain rfl := Except.error.inj hcache
          exact ⟨_, rfl, h⟩
  · rintro (⟨fault, rfl, h⟩ | hescapes)
    · exact h
    · have htext := hescapes.readText_eq
      cases hescapes <;> simp only [readEntry, htext]

/-! ## Checking whatever is there -/

/-- Why the check of the entry of a source fails. -/
inductive Breaks (d : Disk) (directory path tag : String) : Failure → Prop
  /-- The path of the entry or a name on the way to it is too long. -/
  | entryName (find_eq : d.find (entryPath directory path tag) =
      .error (.refused .longName (entryPath directory path tag))) :
      Breaks d directory path tag (.disk (.refused .longName (entryPath directory path tag)))
  /-- Something stands in the place of the entry, and the path of the source or a name on the way to
  it is too long. -/
  | sourceName {written : Node} (find_eq : d.find (entryPath directory path tag) = .ok written)
      (source_eq : d.find path = .error (.refused .longName path)) :
      Breaks d directory path tag (.disk (.refused .longName path))
  /-- The bytes in the place of the entry are newer than the source and no UTF-8. -/
  | undecodable {bytes : List UInt8} {fault : Text.Utf8.Fault}
      (newer : isNewer d (entryPath directory path tag) path = .ok true)
      (bytes_eq : d.readBytes (entryPath directory path tag) = .ok bytes)
      (decode_eq : Text.Utf8.decode bytes = .error fault) :
      Breaks d directory path tag (.undecodable fault)
  /-- The entry is newer than the source, and after dependencies that are unchanged it records one
  whose path is too long, or a name on the way to it. -/
  | dependencyName {entry : Entry} {written : Node} {before after : List String}
      {dependency : String}
      (newer : isNewer d (entryPath directory path tag) path = .ok true)
      (find_eq : d.find (entryPath directory path tag) = .ok written)
      (read_eq : readEntry d directory path tag = .ok entry)
      (dependencies_eq : entry.dependencies = before ++ dependency :: after)
      (unchanged : areUnchanged d written.stamp before = .ok true)
      (dependency_eq : d.find (Path.tidy dependency) =
        .error (.refused .longName (Path.tidy dependency))) :
      Breaks d directory path tag (.disk (.refused .longName (Path.tidy dependency)))

/-- The check of an entry fails for no other reason than those that are told. -/
theorem breaks_of_isValid (h : isValid d directory path tag = .error failure) :
    Breaks d directory path tag failure := by
  unfold isValid at h
  simp only at h
  split at h
  next hnewer =>
    obtain rfl := Except.error.inj h
    obtain ⟨rfl, hlong⟩ | ⟨⟨written, hfind⟩, rfl, hlong⟩ := isNewer_eq_error.1 hnewer
    · exact .entryName hlong
    · exact .sourceName hfind hlong
  · cases h
  next hnewer =>
    obtain ⟨written, -, hfind, -, -⟩ := isNewer_eq_true.1 hnewer
    split at h
    · cases h
    next other hcache hread =>
      obtain rfl := Except.error.inj h
      obtain ⟨fault, rfl, -⟩ | hescapes := readEntry_eq_error_iff.1 hread
      · exact absurd rfl (hcache fault)
      · cases hescapes with
        | undecodable hbytes hdecode => exact .undecodable hnewer hbytes hdecode
        | nul hnul =>
          rw [Disk.find_of_nul hnul] at hfind
          cases hfind
    next entry hread =>
      simp only [Disk.find?, hfind, Except.toOption] at h
      split at h
      · cases h
      next fault hunchanged =>
        obtain rfl := Except.error.inj h
        obtain ⟨before, dependency, after, hsplit, hbefore, hother⟩ :=
          areUnchanged_eq_error.1 hunchanged
        obtain ⟨rfl, hlong⟩ := isUnchanged_eq_error.1 hother
        exact .dependencyName hnewer hfind hread hsplit hbefore hlong

/-- For each of these reasons it does fail. -/
theorem Breaks.isValid_eq (h : Breaks d directory path tag failure) :
    isValid d directory path tag = .error failure := by
  cases h with
  | entryName hlong =>
    have hnewer : isNewer d (entryPath directory path tag) path = .error _ :=
      isNewer_eq_error.2 (.inl ⟨rfl, hlong⟩)
    simp only [isValid, hnewer]
  | sourceName hfind hlong =>
    have hnewer := isNewer_eq_error.2 (.inr ⟨⟨_, hfind⟩, rfl, hlong⟩)
    simp only [isValid, hnewer]
  | undecodable hnewer hbytes hdecode =>
    have hread := readEntry_eq_error_iff.2 (.inr (.undecodable hbytes hdecode))
    simp only [isValid, hnewer, hread]
  | dependencyName hnewer hfind hread hsplit hbefore hlong =>
    have hunchanged := areUnchanged_eq_error.2
      ⟨_, _, _, hsplit, hbefore, isUnchanged_eq_error.2 ⟨rfl, hlong⟩⟩
    simp only [isValid, hnewer, hread, Disk.find?, hfind, Except.toOption, hunchanged]

/-- The check of an entry fails exactly for the reasons that are told. -/
theorem isValid_eq_error_iff :
    isValid d directory path tag = .error failure ↔ Breaks d directory path tag failure :=
  ⟨breaks_of_isValid, Breaks.isValid_eq⟩

/-- An entry with a fault is a miss, if the check comes to a result. -/
theorem isValid_of_fault {fault : CacheFault} {valid : Bool} {records : List LogRecord}
    (hread : readEntry d directory path tag = .error (.cache fault))
    (h : isValid d directory path tag = .ok (valid, records)) : valid = false := by
  cases valid with
  | false => rfl
  | true =>
    obtain ⟨-, written, changed, entry, -, -, -, hentry, -⟩ := isValid_eq_true.1 h
    cases hread.symm.trans hentry

/-! ## Restoring from whatever is there -/

/-- Restoring a stylesheet fails exactly if a cache is used and the check fails. -/
theorem restore_eq_error_iff : restore d p sheet tag = .error failure ↔
    p.usesCache = true ∧ ∃ directory, p.cache = some directory ∧
      Breaks d directory sheet.path tag failure := by
  simp only [← isValid_eq_error_iff]
  unfold restore
  split
  next directory huses hcache =>
    cases hvalid : isValid d directory sheet.path tag with
    | error other => simp [huses, hcache, hvalid]
    | ok checked =>
      obtain ⟨valid, records⟩ := checked
      cases valid with
      | false => simp [huses, hcache, hvalid]
      | true =>
        -- What the check has read is read once more.
        obtain ⟨-, written, changed, entry, -, -, -, hentry, -⟩ := isValid_eq_true.1 hvalid
        simp [huses, hcache, hvalid, hentry]
  next hnone =>
    constructor
    · intro h
      cases h
    · rintro ⟨huses, directory, hcache, -⟩
      exact absurd hcache (hnone directory huses)

/-- An entry with a fault restores nothing, if the check comes to a result. -/
theorem restore_of_fault {fault : CacheFault} {hit : Bool} {restored : Sheet}
    {records : List LogRecord} (hcache : p.cache = some directory)
    (hread : readEntry d directory sheet.path tag = .error (.cache fault))
    (h : restore d p sheet tag = .ok (hit, restored, records)) :
    hit = false ∧ restored = sheet := by
  unfold restore at h
  split at h
  next other huses hother =>
    obtain rfl := Option.some.inj (hcache.symm.trans hother)
    split at h
    · cases h
    next hvalid =>
      obtain ⟨rfl, rfl, -⟩ : false = hit ∧ sheet = restored ∧ _ = records := by simpa using h
      exact ⟨rfl, rfl⟩
    next hvalid => cases isValid_of_fault hread hvalid
  next =>
    obtain ⟨rfl, rfl, -⟩ : false = hit ∧ sheet = restored ∧ [] = records := by simpa using h
    exact ⟨rfl, rfl⟩

/-- Whatever stands in the place of an entry, and whatever library reads it: reading it gives an
entry of the accepted version or a fault of the cache, unless it escapes; the check and the
restoring come to a result, unless the check breaks; and with a fault of the cache that result is a
miss, which leaves the stylesheet as it is. -/
theorem restore_whatever_is_there (d : Disk) (p : Project) (directory tag : String)
    (sheet : Sheet) :
    ((∃ entry, readEntry d directory sheet.path tag = .ok entry ∧
          entry.version = formatVersion) ∨
        (∃ fault, readEntry d directory sheet.path tag = .error (.cache fault)) ∨
        ∃ failure, readEntry d directory sheet.path tag = .error failure ∧
          Escapes d (entryPath directory sheet.path tag) failure) ∧
      (∀ failure, Escapes d (entryPath directory sheet.path tag) failure →
        readEntry d directory sheet.path tag = .error failure) ∧
      (∀ failure, isValid d directory sheet.path tag = .error failure ↔
        Breaks d directory sheet.path tag failure) ∧
      (∀ failure, restore d p sheet tag = .error failure ↔
        p.usesCache = true ∧ ∃ directory, p.cache = some directory ∧
          Breaks d directory sheet.path tag failure) ∧
      ∀ fault, readEntry d directory sheet.path tag = .error (.cache fault) →
        (∃ failure, Breaks d directory sheet.path tag failure) ∨
          (∃ records, isValid d directory sheet.path tag = .ok (false, records)) ∧
            (p.cache = some directory →
              ∃ records, restore d p sheet tag = .ok (false, sheet, records)) := by
  refine ⟨?_, fun failure hescapes => readEntry_eq_error_iff.2 (.inr hescapes),
    fun failure => isValid_eq_error_iff, fun failure => restore_eq_error_iff, ?_⟩
  · cases hread : readEntry d directory sheet.path tag with
    | ok entry => exact .inl ⟨entry, rfl, version_eq_of_readEntry hread⟩
    | error failure =>
      obtain ⟨fault, rfl, -⟩ | hescapes := readEntry_eq_error_iff.1 hread
      · exact .inr (.inl ⟨fault, rfl⟩)
      · exact .inr (.inr ⟨failure, rfl, hescapes⟩)
  · intro fault hread
    cases hvalid : isValid d directory sheet.path tag with
    | error failure => exact .inl ⟨failure, isValid_eq_error_iff.1 hvalid⟩
    | ok checked =>
      obtain ⟨valid, records⟩ := checked
      obtain rfl := isValid_of_fault hread hvalid
      refine .inr ⟨⟨records, rfl⟩, fun hcache => ?_⟩
      cases hrestore : restore d p sheet tag with
      | error failure =>
        obtain ⟨-, other, hother, hbreaks⟩ := restore_eq_error_iff.1 hrestore
        obtain rfl := Option.some.inj (hcache.symm.trans hother)
        cases hvalid.symm.trans (isValid_eq_error_iff.2 hbreaks)
      | ok outcome =>
        obtain ⟨hit, restored, logged⟩ := outcome
        obtain ⟨rfl, rfl⟩ := restore_of_fault hcache hread hrestore
        exact ⟨logged, rfl⟩

end Limited

/-! ## Bytes that are no text -/

/-- A disk with one stylesheet and, in the place of its entry, a later file with one byte. -/
def spoiled : Disk where
  nodes :=
    [([], .directory ⟨0⟩), (["a.scss"], .file [] ⟨1⟩), (["c"], .directory ⟨0⟩),
      (["c", "t"], .directory ⟨0⟩), (["c", "t", fileName "/a.scss"], .file [0xff] ⟨2⟩)]
  home := []
  clock := ⟨3⟩

/-- A project that caches below `/c`. -/
def spoiledProject : Project :=
  { Project.rooted "/" none none with usesCache := true, cache := some "/c" }

/-- Bytes that are no UTF-8 break the reading of an entry, its check and the restoring of the
stylesheet, with a failure that is no fault of the cache. -/
theorem exists_breaking_entry : spoiled.readBytes (entryPath "/c" "/a.scss" "t") = .ok [0xff] ∧
    ∃ fault : Text.Utf8.Fault,
      readEntry spoiled "/c" "/a.scss" "t" = .error (.undecodable fault) ∧
      isValid spoiled "/c" "/a.scss" "t" = .error (.undecodable fault) ∧
      restore spoiled spoiledProject (.fresh "/a.scss" "a.scss") "t" =
        .error (.undecodable fault) := by
  have hbytes : spoiled.readBytes (entryPath "/c" "/a.scss" "t") = .ok [0xff] := by
    decide +kernel
  have hnewer : isNewer spoiled (entryPath "/c" "/a.scss" "t") "/a.scss" = .ok true := by
    decide +kernel
  have hdecode : Text.Utf8.decode [0xff] = .error ⟨0xff, 0, 1, .badStart⟩ := by
    decide +kernel
  have hbreaks : Breaks spoiled "/c" "/a.scss" "t" (.undecodable ⟨0xff, 0, 1, .badStart⟩) :=
    .undecodable hnewer hbytes hdecode
  exact ⟨hbytes, _, readEntry_eq_error_iff.2 (.inr (.undecodable hbytes hdecode)),
    isValid_eq_error_iff.2 hbreaks, restore_eq_error_iff.2 ⟨rfl, "/c", rfl, hbreaks⟩⟩

end Cache

end StyleBundle
