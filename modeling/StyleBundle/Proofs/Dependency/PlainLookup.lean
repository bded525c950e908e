import StyleBundle.Proofs.Import.PlainTree
import StyleBundle.Proofs.Path.Joined

/-!
# Lookups in a plain tree

In a plain tree a lookup has one candidate only that can be a file, whatever it probes: the name of
the target behind no underscore and with the extension of the braced dialect. A plain target leads
from a directory to the file that it stands for, if that file is there, and nowhere else.
-/

namespace StyleBundle.Dependency

open Import (IsPlainTree IsPlainTarget goal bracedExtension)
open StyleBundle.Path (IsMark IsName)

variable {d : Disk} {root mark origin target path : String} {steps : List String}

/-- A search without further directories and without a hook. -/
def plainSearchWith (partials : Bool) : Search := ⟨[], partials, none, ["css", "scss"]⟩

theorem isSteady_plainSearchWith (partials : Bool) : (plainSearchWith partials).IsSteady d :=
  .of_none rfl

/-- The candidates for a target without a dot in its name. -/
theorem candidates_eq {partials : Bool} {front name : String} (hname : '/' ∉ name.toList)
    (hfront : front = "" ∨ front.toList.getLast? = some '/') (hdot : '.' ∉ name.toList) :
    candidates partials ["css", "scss"] (front ++ name) =
      (nameForms partials name).flatMap fun form =>
        ["css", "scss"].map fun extension =>
          Path.join (Path.splitLast (front ++ name)).1 (form ++ "." ++ extension) := by
  have hsplit := Path.splitLast_append hname hfront
  have hextension : hasExtension ["css", "scss"] name = false := by
    rw [hasExtension, List.any_eq_false]
    intro extension _ hsome
    obtain ⟨stem, hstem⟩ := Option.isSome_iff_exists.1 hsome
    exact hdot (by simp [Import.dropEnd?_eq_some_iff.1 hstem])
  rw [candidates, hsplit]
  simp only [hextension, Bool.false_eq_true, if_false]

/-- What is probed for a form of a name is that form in the place of the target's name. -/
theorem normalise_join_eq (hmark : IsMark mark) (hsteps : ∀ step ∈ steps, IsName step)
    {front name other : String} (hname : '/' ∉ name.toList)
    (hfront : front = "" ∨ front.toList.getLast? = some '/')
    (htarget : Path.isAbsolute (front ++ name) = false) (hother : IsName other) :
    Path.normalise (Path.join (mark ++ Path.ofSegments steps)
        (Path.join (Path.splitLast (front ++ name)).1 other)) =
      mark ++ Path.ofSegments ((Path.segments (front ++ other)).foldl Path.descend steps) := by
  have hrelative := Path.isAbsolute_of_not_mem hother.2.2.2
  have hjoined := Path.isAbsolute_join_splitLast hname hfront htarget hrelative
  have habsolute := Path.isAbsolute_mark_append hmark (Path.ofSegments steps)
  rw [Path.normalise_of_isAbsolute (Path.isAbsolute_join habsolute),
    Path.root_join_of_relative _ hjoined,
    Path.root_mark_append hmark (Path.head?_ofSegments_of_isName hsteps),
    Path.foldl_segments_join_of_relative _ hjoined,
    Path.foldl_segments_join_splitLast hname hfront hrelative,
    Path.foldl_segments_mark_append hmark hsteps, List.nil_append]

/-- A name that a file of a plain tree can have. -/
def IsPlainName (name : String) : Prop :=
  ∃ stem, name = stem ++ bracedExtension ∧ name.toList.head? ≠ some '_'

/-- A file has a plain name. -/
theorem isPlainName_of_isFile (htree : IsPlainTree d root) {above : List String} {name : String}
    (hpath : path ∈ Disk.spellings (above ++ [name])) (hnames : ∀ step ∈ above ++ [name], IsName step)
    (hfile : d.isFile path = true) : IsPlainName name := by
  obtain ⟨location, bytes, changed, hlocate, hnode⟩ := Disk.isFile_iff.1 hfile
  rw [Disk.eq_lexical_of_locate hlocate, Import.lexical_of_mem_spellings hnames hpath] at hnode
  obtain ⟨below, stem, hlocation, hhead⟩ := htree.files _ bytes changed hnode
  have hlast := congrArg List.getLast? hlocation
  rw [List.getLast?_concat, List.getLast?_concat, Option.some.injEq] at hlast
  exact ⟨stem, hlast, hlast ▸ hhead⟩

/-- A form of a name with a known extension is a name. -/
theorem isName_append_known {form extension : String} (hform : '/' ∉ form.toList)
    (hextension : extension ∈ ["css", "scss"]) : IsName (form ++ "." ++ extension) := by
  have hfacts : ∀ extension ∈ ["css", "scss"],
      2 < extension.toList.length ∧ '/' ∉ extension.toList := by decide
  obtain ⟨hlong, hslash⟩ := hfacts extension hextension
  apply Path.isName_of_two_lt
  · simp only [String.toList_append, List.length_append]
    omega
  · simpa using ⟨hform, hslash⟩

/-- Of all forms of a name with a known extension, only the name itself with the extension of the
braced dialect is plain. -/
theorem eq_of_isPlainName {partials : Bool} {name form extension : String}
    (hform : form ∈ nameForms partials name) (hextension : extension ∈ ["css", "scss"])
    (h : IsPlainName (form ++ "." ++ extension)) : form = name ∧ extension = "scss" := by
  obtain ⟨stem, hstem, hhead⟩ := h
  constructor
  · unfold nameForms at hform
    split at hform
    · rcases List.mem_cons.1 hform with rfl | hform
      · rfl
      · rw [List.mem_singleton.1 hform] at hhead
        exact absurd (by simp) hhead
    · exact List.mem_singleton.1 hform
  · rcases List.mem_cons.1 hextension with rfl | hextension
    · have hlist : (form ++ ".").toList ++ "css".toList =
          (stem.toList ++ ".s".toList) ++ "css".toList := by
        simpa [bracedExtension] using congrArg String.toList hstem
      have hend := congrArg List.getLast? (List.append_cancel_right hlist)
      simp at hend
    · exact List.mem_singleton.1 hextension

/-- Where at most one element of a list passes, a search finds it if it passes. -/
theorem find?_eq_filter {α : Type} {l : List α} {a : α} {p : α → Bool} (ha : a ∈ l)
    (h : ∀ b ∈ l, p b = true → b = a) : l.find? p = (some a).filter p := by
  cases hp : p a with
  | true =>
    obtain ⟨b, hb⟩ := Option.isSome_iff_exists.1 (List.find?_isSome.2 ⟨a, ha, hp⟩)
    obtain rfl := h b (List.mem_of_find?_eq_some hb) (List.find?_some hb)
    rw [hb, Option.filter_some_pos hp]
  | false =>
    rw [Option.filter_some_neg (by simp [hp]), List.find?_eq_none]
    intro b hb hpass
    rw [h b hb hpass, hp] at hpass
    cases hpass

/-- The first probe for a plain target that is a file, if any, is the one for its name with the
extension of the braced dialect. -/
theorem find?_probes (htree : IsPlainTree d root) {partials : Bool} (hmark : IsMark mark)
    (hsteps : ∀ step ∈ steps, IsName step) (htarget : IsPlainTarget target) :
    (probes [mark ++ Path.ofSegments steps] (candidates partials ["css", "scss"] target)).find?
      d.isFile = (some (mark ++ Path.ofSegments (goal steps target))).filter d.isFile := by
  obtain ⟨hrelative, -, hdot⟩ := htarget
  have hgoal : ∀ step ∈ goal steps target, IsName step := Import.isName_of_mem_goal hsteps
  obtain ⟨front, name, rfl, hname, hfront⟩ := Path.exists_front target
  have hnodot : '.' ∉ name.toList := by
    rw [Import.hasDot, Path.lastPiece_append hname hfront] at hdot
    simpa using hdot
  obtain ⟨above, habove⟩ := Import.exists_foldl_segments_front hfront steps
  have hgoalEq : goal steps (front ++ name) = above ++ [name ++ "." ++ "scss"] := by
    rw [goal, String.append_assoc, habove _ (Import.isName_append_extension hname),
      String.append_assoc]
    rfl
  rw [hgoalEq] at hgoal ⊢
  -- What is probed for a form of the name with an extension.
  have hprobe {form extension : String} (hform : form ∈ nameForms partials name)
      (hextension : extension ∈ ["css", "scss"]) : IsName (form ++ "." ++ extension) ∧
        Path.normalise (Path.join (mark ++ Path.ofSegments steps)
          (Path.join (Path.splitLast (front ++ name)).1 (form ++ "." ++ extension))) =
            mark ++ Path.ofSegments (above ++ [form ++ "." ++ extension]) := by
    obtain ⟨lead, hslash, rfl⟩ := exists_mark_of_mem_nameForms hform
    have hform' : '/' ∉ (lead ++ name).toList := by simp [hslash, hname]
    have hother := isName_append_known hform' hextension
    exact ⟨hother, by rw [normalise_join_eq hmark hsteps hname hfront hrelative hother,
      habove _ hother]⟩
  have hself : name ∈ nameForms partials name := by
    unfold nameForms
    split <;> simp
  rw [probes, List.flatMap_singleton, candidates_eq hname hfront hnodot]
  refine find?_eq_filter ?_ fun probe hmem hfile => ?_
  · refine List.mem_map.2 ⟨_, List.mem_flatMap.2 ⟨name, hself, List.mem_map_of_mem (a := "scss") ?_⟩,
      (hprobe hself ?_).2⟩
    · simp
    · simp
  · obtain ⟨candidate, hcandidate, rfl⟩ := List.mem_map.1 hmem
    obtain ⟨form, hform, hcandidate⟩ := List.mem_flatMap.1 hcandidate
    obtain ⟨extension, hextension, rfl⟩ := List.mem_map.1 hcandidate
    obtain ⟨hother, heq⟩ := hprobe hform hextension
    rw [heq] at hfile ⊢
    have hnames : ∀ step ∈ above ++ [form ++ "." ++ extension], IsName step := by
      intro step hstep
      rcases List.mem_append.1 hstep with hstep | hstep
      · exact hgoal step (List.mem_append_left _ hstep)
      · rw [List.mem_singleton.1 hstep]
        exact hother
    have hplain := isPlainName_of_isFile htree (Import.mark_append_mem_spellings hmark _) hnames hfile
    obtain ⟨rfl, rfl⟩ := eq_of_isPlainName hform hextension hplain
    rfl

/-- A plain target leads to the file that it stands for. -/
theorem leads_iff (htree : IsPlainTree d root) {partials : Bool} (hmark : IsMark mark)
    (hsteps : ∀ step ∈ steps, IsName step)
    (horigin : Path.directory origin = mark ++ Path.ofSegments steps)
    (htarget : IsPlainTarget target) :
    Leads d (plainSearchWith partials) origin target path ↔
      (∃ bytes changed, d.node? (goal steps target) = some (.file bytes changed)) ∧
        path = mark ++ Path.ofSegments (goal steps target) := by
  have hleads : Leads d (plainSearchWith partials) origin target path ↔
      resolve d (plainSearchWith partials) origin target = some path := by
    simp [Leads, htarget.2.1, Redirects, plainSearchWith]
  have hspelling := Import.mark_append_mem_spellings hmark (goal steps target)
  have hfile : d.isFile (mark ++ Path.ofSegments (goal steps target)) = true ↔
      ∃ bytes changed, d.node? (goal steps target) = some (.file bytes changed) := by
    constructor
    · intro h
      obtain ⟨location, bytes, changed, hlocate, hnode⟩ := Disk.isFile_iff.1 h
      have hnames : ∀ step ∈ goal steps target, IsName step := Import.isName_of_mem_goal hsteps
      rw [Disk.eq_lexical_of_locate hlocate,
        Import.lexical_of_mem_spellings hnames hspelling] at hnode
      exact ⟨bytes, changed, hnode⟩
    · rintro ⟨bytes, changed, hnode⟩
      exact Disk.isFile_iff.2
        ⟨_, bytes, changed, htree.wellFormed.locate_of_mem_spellings hnode hspelling, hnode⟩
  have hresolve : resolve d (plainSearchWith partials) origin target =
      ((some (mark ++ Path.ofSegments (goal steps target))).filter d.isFile).map d.absolute := by
    rw [resolve, lookup_eq_find?, horigin]
    exact congrArg (Option.map d.absolute) (find?_probes htree hmark hsteps htarget)
  rw [hleads, hresolve, ← hfile]
  cases hexists : d.isFile (mark ++ Path.ofSegments (goal steps target)) with
  | false => simp [Option.filter, hexists]
  | true =>
    obtain ⟨bytes, changed, hnode⟩ := hfile.1 hexists
    have habsolute := htree.wellFormed.absolute_eq_self hnode hspelling
    simp [Option.filter, hexists, habsolute, eq_comm]

end StyleBundle.Dependency
