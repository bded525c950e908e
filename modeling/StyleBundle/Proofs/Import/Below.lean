import StyleBundle.Proofs.Import.Origin
import StyleBundle.Proofs.Path.Joined

/-!
# Directories below the root

A directory may be spelled with segments that lead nowhere or back, but as long as its text goes on
from the text of the root, that text is what is taken out of it. A relative target is then read from
where the directory and the target lead, and the root does not matter any more.
-/

namespace StyleBundle.Import

open StyleBundle.Path (IsMark)

variable {root directory extension target last : String} {above : List String}

/-- A normalised path from the root of the disk, not of slashes alone, that a directory's text goes
on from: the directory is the same, or it is below. -/
structure IsRootOf (root directory : String) : Prop where
  /-- The path starts at the root of the disk. -/
  isAbsolute : Path.isAbsolute root = true
  /-- The path is normalised. -/
  normalised : Path.normalise root = root
  /-- The path names something. -/
  notMark : ¬ IsMark root
  /-- The directory goes on from the path where a segment ends. -/
  below : ∃ rest, directory = root ++ rest ∧ (rest = "" ∨ rest.toList.head? = some '/')

/-- The way from the root to the directory is put behind the root again, with a slash too many that
normalising takes away. -/
theorem IsRootOf.normalise_belowRoot (h : IsRootOf root directory) (tail : String) :
    Path.normalise (root ++ "/" ++ belowRoot root (Path.segments directory) ++ "/" ++ tail) =
      Path.normalise (directory ++ "/" ++ tail) := by
  obtain ⟨rest, rfl, hrest⟩ := h.below
  have hway : belowRoot root (Path.segments (root ++ rest)) = rest := by
    rw [belowRoot, Path.ofSegments_segments, String.toList_append, Text.replaceFirst_append,
      String.ofList_toList]
  obtain ⟨way, hslash⟩ : ∃ way, rest ++ "/" = "/" ++ way := by
    rcases hrest with rfl | hhead
    · exact ⟨"", rfl⟩
    · obtain ⟨way, hway⟩ := List.head?_eq_some_iff.1 hhead
      exact ⟨String.ofList way ++ "/", by simp [← String.toList_inj, hway]⟩
  have hcollapse := Path.normalise_append_slash_slash
    (Path.all_eq_false_of_not_isMark h.isAbsolute h.normalised h.notMark) (way ++ tail)
  rw [hway]
  calc Path.normalise (root ++ "/" ++ rest ++ "/" ++ tail)
      = Path.normalise (root ++ "/" ++ ((rest ++ "/") ++ tail)) := by
        simp only [String.append_assoc]
    _ = Path.normalise (root ++ "/" ++ ("/" ++ (way ++ tail))) := by
        simp only [hslash, String.append_assoc]
    _ = Path.normalise (root ++ "/" ++ (way ++ tail)) := hcollapse
    _ = Path.normalise (root ++ ("/" ++ way) ++ tail) := by
        simp only [String.append_assoc]
    _ = Path.normalise (root ++ rest ++ "/" ++ tail) := by
        rw [← hslash]
        simp only [String.append_assoc]

/-- The extension is put behind a target whose last segment has no dot. -/
theorem withExtension_of_segments (hsegments : Path.segments target = above ++ [last]) :
    withExtension extension target =
      if '.' ∈ last.toList then target else target ++ extension := by
  simp only [withExtension, hasDot, lastPiece_of_segments hsegments, decide_eq_true_eq]

/-- A relative target is read from where it leads from its directory, whatever root at or above the
directory is given. The path is normalised and starts at the root of the disk. -/
theorem resolve_of_isRootOf (h : IsRootOf root directory) (hne : target ≠ "")
    (hrelative : Path.isAbsolute target = false)
    (hsegments : Path.segments target = above ++ [last]) :
    resolve root extension (Path.segments directory) target =
        Path.normalise (directory ++ "/" ++
          if '.' ∈ last.toList then target else target ++ extension) ∧
      Path.isAbsolute (resolve root extension (Path.segments directory) target) = true ∧
      Path.normalise (resolve root extension (Path.segments directory) target) =
        resolve root extension (Path.segments directory) target ∧
      ∀ other, IsRootOf other directory →
        resolve other extension (Path.segments directory) target =
          resolve root extension (Path.segments directory) target := by
  have hresolve (other : String) (hother : IsRootOf other directory) :
      resolve other extension (Path.segments directory) target =
        Path.normalise (directory ++ "/" ++ withExtension extension target) := by
    have hseen := isAbsolute_withExtension extension hrelative hne
    rw [resolve, if_neg hne]
    simp only
    rw [if_neg (by simp [hseen]), hother.normalise_belowRoot]
  have habsolute : Path.isAbsolute directory = true := by
    obtain ⟨rest, rfl, -⟩ := h.below
    exact Path.isAbsolute_append h.isAbsolute rest
  rw [hresolve root h, ← withExtension_of_segments hsegments]
  refine ⟨rfl, ?_, Path.normalise_normalise _, hresolve⟩
  rw [Path.isAbsolute_eq_of_root_eq (Path.root_normalise _), String.append_assoc]
  exact Path.isAbsolute_append habsolute _

/-- A directory that is spelled in a roundabout way has several roots, which give the same path. -/
theorem resolve_of_isRootOf_roundabout :
    IsRootOf "/s" "/s/a/.//../b" ∧ IsRootOf "/s/a" "/s/a/.//../b" ∧
      resolve "/s" ".scss" (Path.segments "/s/a/.//../b") "../x" = "/s/x.scss" ∧
      resolve "/s/a" ".scss" (Path.segments "/s/a/.//../b") "../x" = "/s/x.scss" := by
  have hshort : IsRootOf "/s" "/s/a/.//../b" :=
    ⟨rfl, by decide, not_or.2 ⟨by decide, by decide⟩, "/a/.//../b", rfl, .inr rfl⟩
  have hlong : IsRootOf "/s/a" "/s/a/.//../b" :=
    ⟨rfl, by decide, not_or.2 ⟨by decide, by decide⟩, "/.//../b", rfl, .inr rfl⟩
  have hsegments : Path.segments "../x" = [".."] ++ ["x"] := rfl
  obtain ⟨hpath, -, -, hsame⟩ := @resolve_of_isRootOf _ _ ".scss" _ _ _ hshort (by decide) rfl
    hsegments
  have hread : resolve "/s" ".scss" (Path.segments "/s/a/.//../b") "../x" = "/s/x.scss" :=
    hpath.trans (by decide +kernel)
  exact ⟨hshort, hlong, hread, (hsame _ hlong).trans hread⟩

end StyleBundle.Import
