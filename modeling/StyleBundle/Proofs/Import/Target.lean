import StyleBundle.Import.Inline
import StyleBundle.Proofs.Disk.Spelling

/-!
# Plain paths

A path is plain if it is an absolute spelling of a row of names. A relative target is read from a
plain path, and neither the extension nor a look at the other dialect leads out of the plain paths.
A file has two plain paths only, which bounds the number of paths that a chain of imports can go
through.
-/

namespace StyleBundle

namespace Text

/-- Behind a separator stands the last piece. -/
theorem lastPiece_append {separator : Char} {piece : List Char} (h : separator ∉ piece)
    (front : List Char) : lastPiece separator (front ++ separator :: piece) = piece := by
  rw [lastPiece, split_append_separator, split_of_not_mem h, List.getLast?_concat]
  rfl

/-- An ending without a separator goes to the last piece. -/
theorem split_append {separator : Char} {s last ending : List Char} {front : List (List Char)}
    (hs : split separator s = front ++ [last]) (h : separator ∉ ending) :
    split separator (s ++ ending) = front ++ [last ++ ending] := by
  induction s generalizing front last with
  | nil =>
    have hnil : [[]] = front ++ [last] := hs
    rw [List.singleton_eq_append_iff] at hnil
    rcases hnil with ⟨rfl, hlast⟩ | ⟨-, hlast⟩
    · obtain rfl : [] = last := by simpa using hlast
      simpa using split_of_not_mem h
    · simp at hlast
  | cons c rest ih =>
    by_cases hc : c = separator
    · rw [split, if_pos hc] at hs
      rw [List.cons_append, split, if_pos hc]
      cases front with
      | nil => exact absurd (List.cons.inj hs).2 (split_ne_nil separator rest)
      | cons first front =>
        obtain ⟨rfl, hrest⟩ := List.cons.inj hs
        rw [ih hrest]
        rfl
    · obtain ⟨piece, pieces, hpieces⟩ := List.exists_cons_of_ne_nil (split_ne_nil separator rest)
      simp only [split, if_neg hc, hpieces] at hs
      simp only [List.cons_append, split, if_neg hc]
      cases front with
      | nil =>
        obtain ⟨rfl, rfl⟩ := List.cons.inj hs
        have hrest : split separator rest = [] ++ [piece] := hpieces
        rw [ih hrest]
        rfl
      | cons first front =>
        obtain ⟨rfl, rfl⟩ := List.cons.inj hs
        have hrest : split separator rest = piece :: front ++ [last] := hpieces
        rw [ih hrest]
        rfl

/-- An ending without a separator is part of the last piece. -/
theorem exists_of_append_eq_append {separator : Char} {front piece stem ending : List Char}
    (h : front ++ separator :: piece = stem ++ ending) (hending : separator ∉ ending) :
    ∃ rest, piece = rest ++ ending ∧ stem = front ++ separator :: rest := by
  rcases List.append_eq_append_iff.1 h with ⟨more, hstem, hpiece⟩ | ⟨more, -, hending'⟩
  · cases more with
    | nil =>
      rw [List.nil_append] at hpiece
      exact absurd (hpiece ▸ List.mem_cons_self ..) hending
    | cons c rest =>
      obtain ⟨rfl, rfl⟩ : separator = c ∧ piece = rest ++ ending := by simpa using hpiece
      exact ⟨rest, rfl, hstem⟩
  · exact absurd (hending' ▸ List.mem_append_right _ (List.mem_cons_self ..)) hending

end Text

namespace Disk

/-- The absolute spellings of a location differ from those of its neighbours in the last name
only. -/
theorem exists_base_of_mem_spellings {above : Location} {name path : String}
    (h : path ∈ spellings (above ++ [name])) : ∃ base,
    path = base ++ "/" ++ name ∧ ∀ other, base ++ "/" ++ other ∈ spellings (above ++ [other]) := by
  have hpath : ∃ base, ∀ other, pathOf (above ++ [other]) = base ++ "/" ++ other := by
    by_cases habove : above = []
    · subst habove
      exact ⟨"", fun other => by simp [← String.toList_inj, toList_pathOf, Text.join]⟩
    · refine ⟨pathOf above, fun other => ?_⟩
      have hne : above.map String.toList ≠ [] := by simpa using habove
      simp [← String.toList_inj, toList_pathOf, Text.join_concat hne]
  obtain ⟨base, hbase⟩ := hpath
  rcases mem_spellings.1 h with rfl | rfl
  · exact ⟨base, hbase name, fun other => mem_spellings.2 (.inl (hbase other).symm)⟩
  · refine ⟨"/" ++ base, ?_, fun other => mem_spellings.2 (.inr ?_)⟩
    · simp [hbase, String.append_assoc]
    · simp [hbase, String.append_assoc]

end Disk

namespace Import

/-- An ending is dropped from what it was put behind. -/
theorem dropEnd?_eq_some_iff {ending s stem : String} :
    dropEnd? ending s = some stem ↔ s = stem ++ ending := by
  simp only [dropEnd?, Option.map_eq_some_iff, Text.dropFront?_eq_some_iff]
  constructor
  · rintro ⟨rest, hrest, rfl⟩
    have h := congrArg List.reverse hrest
    simp only [List.reverse_reverse, List.reverse_append] at h
    simp [← String.toList_inj, h]
  · rintro rfl
    exact ⟨stem.toList.reverse, by simp, by simp⟩

/-- A path in one dialect does not end in the other's extension. -/
theorem dropEnd?_braced_append_indented (stem : String) :
    dropEnd? bracedExtension (stem ++ indentedExtension) = none := by
  cases h : dropEnd? bracedExtension (stem ++ indentedExtension) with
  | none => rfl
  | some other =>
    have heq := congrArg String.toList (dropEnd?_eq_some_iff.1 h)
    simp only [String.toList_append] at heq
    have hlength : indentedExtension.toList.length = bracedExtension.toList.length := by
      simp [indentedExtension, bracedExtension]
    have hend := (List.append_inj' heq hlength).2
    exact absurd hend (by decide)

/-- The counterpart's counterpart is the path. -/
theorem counterpart_counterpart (path : String) : counterpart (counterpart path) = path := by
  have hindented (stem : String) : counterpart (stem ++ indentedExtension) =
      stem ++ bracedExtension := by
    simp only [counterpart, dropEnd?_braced_append_indented, dropEnd?_eq_some_iff.2 rfl]
  have hbraced (stem : String) : counterpart (stem ++ bracedExtension) =
      stem ++ indentedExtension := by
    simp only [counterpart, dropEnd?_eq_some_iff.2 rfl]
  cases h : dropEnd? bracedExtension path with
  | some stem =>
    obtain rfl := dropEnd?_eq_some_iff.1 h
    rw [hbraced, hindented]
  | none =>
    cases h' : dropEnd? indentedExtension path with
    | some stem =>
      obtain rfl := dropEnd?_eq_some_iff.1 h'
      rw [hindented, hbraced]
    | none => simp only [counterpart, h, h']

/-! ## The directory of a path -/

/-- A path has a last segment. -/
theorem exists_segments_eq (path : String) : ∃ front last, Path.segments path = front ++ [last] := by
  rcases List.eq_nil_or_concat (Path.segments path) with h | ⟨front, last, h⟩
  · exact absurd (List.map_eq_nil_iff.1 h) (Text.split_ne_nil '/' path.toList)
  · exact ⟨front, last, h.trans List.concat_eq_append⟩

/-- An ending goes to the last segment of a path. -/
theorem segments_append {path last ending : String} {front : List String}
    (hpath : Path.segments path = front ++ [last]) (h : '/' ∉ ending.toList) :
    Path.segments (path ++ ending) = front ++ [last ++ ending] := by
  have hpieces : Text.split '/' path.toList = front.map String.toList ++ [last.toList] := by
    have hmap := congrArg (List.map String.toList) hpath
    simpa [Path.segments, Function.comp_def] using hmap
  rw [Path.segments, String.toList_append, Text.split_append hpieces h]
  simp [Function.comp_def]

/-- What is put behind the last segment of a path leaves its directory. -/
theorem dropLast_segments_append {ending : String} (h : '/' ∉ ending.toList) (path : String) :
    (Path.segments (path ++ ending)).dropLast = (Path.segments path).dropLast := by
  obtain ⟨front, last, hpath⟩ := exists_segments_eq path
  rw [segments_append hpath h, hpath, List.dropLast_concat, List.dropLast_concat]

/-- The path that is read for a given one stands in the same directory. -/
theorem dropLast_segments_entryPath {extension : String} (hextension : '/' ∉ extension.toList)
    (path : String) :
    (Path.segments (entryPath extension path)).dropLast = (Path.segments path).dropLast := by
  unfold entryPath
  simp only
  split
  · rfl
  · exact dropLast_segments_append hextension path

/-- A path ends as its last segment does. -/
theorem dropEnd?_last {path last ending : String} {front : List String}
    (hpath : Path.segments path = front ++ [last]) (hending : '/' ∉ ending.toList) :
    (∃ stem, dropEnd? ending path = some stem) ↔ ∃ stem, dropEnd? ending last = some stem := by
  simp only [dropEnd?_eq_some_iff]
  constructor
  · rintro ⟨stem, rfl⟩
    obtain ⟨front', last', hstem⟩ := exists_segments_eq stem
    rw [segments_append hstem hending] at hpath
    obtain ⟨-, hlast⟩ := List.append_inj' hpath rfl
    exact ⟨last', (List.singleton_inj.1 hlast).symm⟩
  · rintro ⟨stem, rfl⟩
    refine ⟨Path.ofSegments (front ++ [stem]), ?_⟩
    have hpieces : Text.split '/' path.toList =
        front.map String.toList ++ [(stem ++ ending).toList] := by
      have hmap := congrArg (List.map String.toList) hpath
      simpa [Path.segments, Function.comp_def] using hmap
    rw [← String.toList_inj, ← Text.join_split '/' path.toList, hpieces]
    cases front with
    | nil => simp [Path.ofSegments, Text.join]
    | cons first rest =>
      rw [Text.join_concat (by simp), Path.ofSegments, List.map_append, List.map_singleton,
        Text.join_concat (by simp)]
      simp

/-- Of a path and its counterpart the last segments are counterparts. -/
theorem segments_counterpart {path last : String} {front : List String}
    (hpath : Path.segments path = front ++ [last]) :
    Path.segments (counterpart path) = front ++ [counterpart last] := by
  have hbraced : '/' ∉ bracedExtension.toList := by decide
  have hindented : '/' ∉ indentedExtension.toList := by decide
  have hlast {stem ending : String} (hending : '/' ∉ ending.toList)
      (h : dropEnd? ending path = some stem) : ∃ rest, last = rest ++ ending ∧
        ∀ other, '/' ∉ other.toList → Path.segments (stem ++ other) = front ++ [rest ++ other] := by
    obtain rfl := dropEnd?_eq_some_iff.1 h
    obtain ⟨front', rest, hstem⟩ := exists_segments_eq stem
    rw [segments_append hstem hending] at hpath
    obtain ⟨rfl, hrest⟩ := List.append_inj' hpath rfl
    exact ⟨rest, (List.singleton_inj.1 hrest).symm, fun other hother =>
      segments_append hstem hother⟩
  unfold counterpart
  cases h : dropEnd? bracedExtension path with
  | some stem =>
    obtain ⟨rest, rfl, hrest⟩ := hlast hbraced h
    simp only [dropEnd?_eq_some_iff.2 rfl, hrest _ hindented]
  | none =>
    have hnone : dropEnd? bracedExtension last = none := by
      have hiff := dropEnd?_last hpath hbraced
      simpa [h, ← Option.ne_none_iff_exists'] using hiff
    cases h' : dropEnd? indentedExtension path with
    | some stem =>
      obtain ⟨rest, rfl, hrest⟩ := hlast hindented h'
      simp only [hnone, dropEnd?_eq_some_iff.2 rfl, hrest _ hbraced]
    | none =>
      have hnone' : dropEnd? indentedExtension last = none := by
        have hiff := dropEnd?_last hpath hindented
        simpa [h', ← Option.ne_none_iff_exists'] using hiff
      simp only [hnone, hnone', hpath]

/-- The counterpart of a path stands in the same directory. -/
theorem dropLast_segments_counterpart (path : String) :
    (Path.segments (counterpart path)).dropLast = (Path.segments path).dropLast := by
  obtain ⟨front, last, hpath⟩ := exists_segments_eq path
  rw [segments_counterpart hpath, hpath, List.dropLast_concat, List.dropLast_concat]

/-- The counterpart of a path starts at the same place. -/
theorem isAbsolute_counterpart (path : String) :
    Path.isAbsolute (counterpart path) = Path.isAbsolute path := by
  have hdrop {stem old new : String} (hold : old.toList.head? = some '.')
      (hnew : new.toList.head? = some '.') (h : path = stem ++ old) :
      Path.isAbsolute (stem ++ new) = Path.isAbsolute path := by
    subst h
    simp only [Path.isAbsolute, String.toList_append, List.head?_append, hold, hnew]
  unfold counterpart
  split
  next stem h => exact hdrop rfl rfl (dropEnd?_eq_some_iff.1 h)
  next =>
    split
    next stem h => exact hdrop rfl rfl (dropEnd?_eq_some_iff.1 h)
    next => rfl

/-! ## Plain paths -/

/-- An absolute path of a row of names. -/
def IsPlain (path : String) : Prop :=
  ∃ names, (∀ name ∈ names, Path.IsName name) ∧ path ∈ Disk.spellings names

namespace IsPlain

/-- Normalising a path from the root makes it plain. -/
theorem normalise {path : String} (h : Path.isAbsolute path = true) :
    IsPlain (Path.normalise path) := by
  refine ⟨(Path.segments path).foldl Path.descend [],
    Path.isName_of_mem_foldl_descend (fun _ => Path.not_mem_of_mem_segments) (by simp), ?_⟩
  rw [Path.normalise_of_isAbsolute h, Disk.mem_spellings, Disk.pathOf]
  rcases Path.root_of_isAbsolute h with hroot | hroot
  · exact .inl (by rw [hroot])
  · right
    simp [← String.toList_inj, hroot]

/-- A plain path leads to the location of its names, if anywhere. -/
theorem mem_spellings [Limits] {d : Disk} {path : String} {location : Location} (h : IsPlain path)
    (hlocate : d.locate path = .ok location) : path ∈ Disk.spellings location := by
  obtain ⟨names, hnames, hpath⟩ := h
  have hdescend : (Path.segments path).foldl Path.descend [] = names := by
    rcases Disk.mem_spellings.1 hpath with rfl | rfl
    · exact Disk.foldl_segments_pathOf hnames
    · rw [Path.segments_slash, List.foldl_cons, Path.descend_of_isIdle rfl,
        Disk.foldl_segments_pathOf hnames]
  have habsolute : Path.isAbsolute path = true := by
    rcases Disk.mem_spellings.1 hpath with rfl | rfl <;>
      simp [Path.isAbsolute, Disk.toList_pathOf]
  have hlocation := Disk.eq_lexical_of_locate hlocate
  rw [Disk.lexical, Disk.start, if_pos habsolute, hdescend] at hlocation
  rwa [hlocation]

/-- The extension of a name without a dot keeps a path plain. -/
theorem entryPath {extension path : String} (hextension : '/' ∉ extension.toList)
    (h : IsPlain path) : IsPlain (entryPath extension path) := by
  obtain ⟨names, hnames, hpath⟩ := id h
  rcases List.eq_nil_or_concat names with rfl | ⟨above, name, rfl⟩
  · have hempty : Text.lastPiece '/' path.toList = [] := by
      rcases Disk.mem_spellings.1 hpath with rfl | rfl <;> rfl
    rwa [Import.entryPath, if_pos (.inl hempty)]
  · rw [List.concat_eq_append] at hnames hpath
    obtain ⟨base, rfl, hbase⟩ := Disk.exists_base_of_mem_spellings hpath
    have hname := hnames name (by simp)
    have hlast : Text.lastPiece '/' (base ++ "/" ++ name).toList = name.toList := by
      simpa using Text.lastPiece_append hname.2.2.2 base.toList
    rw [Import.entryPath, hlast]
    split
    next => exact h
    next hdot =>
      rw [not_or] at hdot
      refine ⟨above ++ [name ++ extension], ?_, ?_⟩
      · intro other hother
        rcases List.mem_append.1 hother with hother | hother
        · exact hnames other (List.mem_append_left _ hother)
        · obtain rfl := List.mem_singleton.1 hother
          obtain ⟨c, rest, hcs⟩ := List.exists_cons_of_ne_nil hdot.1
          have hc : c ≠ '.' := fun e => hdot.2 (by simp [hcs, e])
          have hfirst : (name ++ extension).toList.head? = some c := by simp [hcs]
          refine ⟨?_, ?_, ?_, ?_⟩
          · rintro e
            simp [e] at hfirst
          · rintro e
            exact hc (by simpa [e] using hfirst.symm)
          · rintro e
            exact hc (by simpa [e] using hfirst.symm)
          · simpa using ⟨hname.2.2.2, hextension⟩
      · simpa [String.append_assoc] using hbase (name ++ extension)

/-- Changing the ending of the last name keeps a path plain. -/
theorem append_ending {stem old new : String} (hold : '/' ∉ old.toList) (hnew : '/' ∉ new.toList)
    (hlength : 2 < new.toList.length) (hne : old ≠ "") (h : IsPlain (stem ++ old)) :
    IsPlain (stem ++ new) := by
  obtain ⟨names, hnames, hpath⟩ := h
  rcases List.eq_nil_or_concat names with rfl | ⟨above, name, rfl⟩
  · obtain ⟨c, rest, hcs⟩ :=
      List.exists_cons_of_ne_nil (mt String.toList_eq_nil_iff.1 hne)
    have hall : ∀ c ∈ (stem ++ old).toList, c = '/' := by
      intro c hc
      rcases Disk.mem_spellings.1 hpath with h | h
      · simpa [h, Disk.toList_pathOf, Text.join] using hc
      · simpa [h, Disk.toList_pathOf, Text.join] using hc
    have hc : c = '/' := hall c (by simp [hcs])
    exact absurd (by simp [hcs, hc]) hold
  · rw [List.concat_eq_append] at hnames hpath
    obtain ⟨base, hstem, hbase⟩ := Disk.exists_base_of_mem_spellings hpath
    have hlist : base.toList ++ '/' :: name.toList = stem.toList ++ old.toList := by
      have h := congrArg String.toList hstem
      simpa using h.symm
    obtain ⟨rest, hrest, hfront⟩ := Text.exists_of_append_eq_append hlist hold
    have hname := hnames name (by simp)
    refine ⟨above ++ [String.ofList rest ++ new], ?_, ?_⟩
    · intro other hother
      rcases List.mem_append.1 hother with hother | hother
      · exact hnames other (List.mem_append_left _ hother)
      · obtain rfl := List.mem_singleton.1 hother
        have hlong : 2 < (String.ofList rest ++ new).toList.length := by
          simp only [String.toList_append, List.length_append]
          omega
        refine ⟨?_, ?_, ?_, ?_⟩
        · rintro e
          simp [e] at hlong
        · rintro e
          simp [e] at hlong
        · rintro e
          simp [e] at hlong
        · have hrest : '/' ∉ rest := fun hmem => hname.2.2.2 (by simp [hrest, hmem])
          simpa using ⟨hrest, hnew⟩
    · have h := hbase (String.ofList rest ++ new)
      have heq : base ++ "/" ++ (String.ofList rest ++ new) = stem ++ new := by
        simp [← String.toList_inj, hfront]
      rwa [heq] at h

/-- The counterpart of a plain path is plain. -/
theorem counterpart {path : String} (h : IsPlain path) : IsPlain (counterpart path) := by
  rw [Import.counterpart]
  split
  next stem hstem =>
    obtain rfl := dropEnd?_eq_some_iff.1 hstem
    exact h.append_ending (by decide) (by decide) (by decide) (by decide)
  next =>
    split
    next stem hstem =>
      obtain rfl := dropEnd?_eq_some_iff.1 hstem
      exact h.append_ending (by decide) (by decide) (by decide) (by decide)
    next => exact h

end IsPlain

end Import

end StyleBundle
