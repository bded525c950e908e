import StyleBundle.Proofs.Dependency.Closure
import StyleBundle.Proofs.Dependency.External
import StyleBundle.Proofs.Import.Flatten
import StyleBundle.Proofs.Path.Joined

/-!
# The walk with the macro hook

The macro hook answers a target with its normalised path, so the walk takes candidates from a path
that is normalised already; without a hook each candidate is normalised when it has been joined to a
directory. Where no macro touches a target that ends in a name, both probe the same paths, and the
whole walk finds the same files.
-/

namespace StyleBundle.Dependency

/-- The search with the macro hook in the place of its own. -/
def Search.withMacros (s : Search) (macros : Import.Macros) : Search :=
  { s with hook := some (Import.macroHook macros none) }

/-- A target that the macro hook only normalises: it holds no macro and no scheme, and ends in a
name. -/
structure IsUntouched (macros : Import.Macros) (target : String) : Prop where
  /-- No macro stands in the target. -/
  no_macro : ∀ macroEntry ∈ macros, ¬ macroEntry.1.toList <:+: target.toList
  /-- No scheme stands in the target. -/
  no_scheme : ¬ HoldsScheme target
  /-- The last segment is a name. -/
  isName : Path.IsName (Path.splitLast target).2

/-- A reference stands in the text of a file that the entry reaches. -/
def Stands (d : Disk) (s : Search) (entry text : String) (r : Reference) : Prop :=
  ∃ content, Reaches d s entry text r.origin ∧ contentOf d entry text r.origin = .ok content ∧
    r ∈ references r.origin content

variable {d : Disk} {s s' : Search} {macros : Import.Macros} {entry text origin target : String}

/-! ## Searches that follow alike -/

/-- What stands in the text of a reached file stands in a reached text. -/
theorem stands_of_mem_references {path content : String} (hpath : Reaches d s entry text path)
    (hcontent : contentOf d entry text path = .ok content) :
    ∀ r ∈ references path content, Stands d s entry text r := by
  intro r hr
  obtain ⟨statement, hstatement, rfl⟩ := List.mem_map.1 hr
  exact ⟨content, hpath, hcontent, List.mem_map_of_mem hstatement⟩

/-- A reference of a reached text is followed to a reached file. -/
theorem Stands.reaches (hs : s.IsSteady d) {r : Reference} (hr : Stands d s entry text r)
    {asked : Nat} {path : String} (h : follow d s asked r = .ok (some path)) :
    Reaches d s entry text path := by
  obtain ⟨content, horigin, hcontent, hmem⟩ := hr
  exact reaches_of_mem_references horigin hcontent hmem
    ((eq_some_iff_leads_of_follow hs h path).1 rfl)

/-- Two searches that follow the references of all reached texts alike have the same dependencies. -/
theorem dependencies_eq_of_follow_eq (hs : s.IsSteady d)
    (hfollow : ∀ r, Stands d s entry text r → ∀ asked, follow d s' asked r = follow d s asked r) :
    dependencies d s' entry text = dependencies d s entry text := by
  rw [dependencies_eq_walk, dependencies_eq_walk]
  refine walk_eq_of_follow_eq hfollow (fun _ _ _ _ _ => ⟨Iff.rfl, rfl⟩) ?_ 0 _ []
    (stands_of_mem_references .refl (if_pos rfl))
  -- What a new file imports stands in a reached text, as the file is reached.
  intro r hr asked path content hpath hne hcontent
  exact stands_of_mem_references (hr.reaches hs hpath) (by rwa [contentOf, if_neg hne])

/-! ## The same probes -/

/-- A form of a name is relative, with anything behind it. -/
theorem isAbsolute_append_of_mem_nameForms {partials : Bool} {name form : String}
    (hname : Path.IsName name) (h : form ∈ nameForms partials name) (tail : String) :
    Path.isAbsolute (form ++ tail) = false := by
  obtain ⟨mark, hmark, rfl⟩ := exists_mark_of_mem_nameForms h
  have hne : mark ++ name ≠ "" := fun hempty => hname.1 (String.append_eq_empty_iff.1 hempty).2
  have hslash : '/' ∉ (mark ++ name).toList := by simpa [hmark] using hname.2.2.2
  rw [Path.isAbsolute_append_of_ne_empty hne, Path.isAbsolute_of_not_mem hslash]

/-- A lookup probes the same paths when the target is normalised first, where it ends in a name. -/
theorem probes_normalise (h : Path.IsName (Path.splitLast target).2)
    (directories extensions : List String) (partials : Bool) :
    probes directories (candidates partials extensions (Path.normalise target)) =
      probes directories (candidates partials extensions target) := by
  have hcandidates (path : String) : candidates partials extensions path =
      (nameForms partials (Path.splitLast path).2).flatMap fun form =>
        if hasExtension extensions (Path.splitLast path).2 then [Path.join (Path.directory path) form]
        else extensions.map fun extension =>
          Path.join (Path.directory path) (form ++ "." ++ extension) := rfl
  have hrelative {form : String} (hform : form ∈ nameForms partials (Path.splitLast target).2) :=
    isAbsolute_append_of_mem_nameForms h hform
  unfold probes
  refine List.flatMap_congr fun directory _ => ?_
  rw [hcandidates, hcandidates, Path.splitLast_normalise h, List.map_flatMap, List.map_flatMap]
  refine List.flatMap_congr fun form hform => ?_
  split
  next =>
    have hform := hrelative hform ""
    rw [String.append_empty] at hform
    rw [List.map_singleton, List.map_singleton,
      Path.normalise_join_directory_normalise h hform directory]
  next =>
    rw [List.map_map, List.map_map]
    refine List.map_congr_left fun extension _ => ?_
    have hform := hrelative hform ("." ++ extension)
    rw [← String.append_assoc] at hform
    rw [Function.comp_apply, Function.comp_apply,
      Path.normalise_join_directory_normalise h hform directory]

/-- A target that ends in a name leads to the same file when it is normalised first. -/
theorem resolve_normalise (h : Path.IsName (Path.splitLast target).2) :
    resolve d s origin (Path.normalise target) = resolve d s origin target := by
  rw [resolve, resolve, lookup_eq_find?, lookup_eq_find?, probes_normalise h]

/-! ## The answers of the hook -/

/-- Macros that do not stand in a url leave it as it is. -/
theorem expand_eq_self {url : String}
    (h : ∀ macroEntry ∈ macros, ¬ macroEntry.1.toList <:+: url.toList) :
    Import.expand macros url = url := by
  rw [Import.expand]
  induction macros with
  | nil => rfl
  | cons macroEntry rest ih =>
    rw [List.foldl_cons, Import.substitute,
      Text.replaceFirst_of_not_infix (h macroEntry (List.mem_cons_self ..)), String.ofList_toList]
    exact ih fun other hother => h other (List.mem_cons_of_mem _ hother)

/-- The macro hook answers an untouched target with its normalised path. -/
theorem answer_of_isUntouched (h : IsUntouched macros target) (asked : Nat) :
    (Import.macroHook macros none).answer asked d target origin =
      .ok (some ⟨some (Path.normalise target), none, none⟩) := by
  have hscheme : Import.hasScheme target = false :=
    Bool.eq_false_iff.2 (mt hasScheme_iff.1 h.no_scheme)
  simp only [Import.macroHook, hscheme, Bool.false_eq_true, if_false, Import.remap,
    expand_eq_self h.no_macro]

/-- A reference to an untouched target is followed with the macro hook as without a hook. -/
theorem follow_withMacros (hhook : s.hook = none) {r : Reference}
    (h : isExternal r.target = false → IsUntouched macros r.target) (asked : Nat) :
    follow d (s.withMacros macros) asked r = follow d s asked r := by
  cases hexternal : isExternal r.target with
  | true => simp [follow, lookupTarget, hexternal]
  | false =>
    have huntouched := h hexternal
    have hredirect : redirect r.target (some ⟨some (Path.normalise r.target), none, none⟩) =
        some (Path.normalise r.target) := by
      simp [redirect, Path.normalise_ne_empty]
    have hwith : lookupTarget d (s.withMacros macros) asked r =
        .ok (some (Path.normalise r.target)) := by
      simp only [lookupTarget, hexternal, Search.withMacros, answer_of_isUntouched huntouched,
        hredirect, Bool.false_eq_true, if_false]
    have hwithout : lookupTarget d s asked r = .ok (some r.target) := by
      simp [lookupTarget, hexternal, hhook]
    rw [follow, follow, hwith, hwithout]
    exact congrArg Except.ok (resolve_normalise huntouched.isName)

/-! ## The same walk -/

/-- The walk finds the same files, in the same order, or fails alike, with the macro hook as without
a hook, where every target of a reached text that is no address is untouched by the macros. It ends
with a list where the reached files hold text. -/
theorem dependencies_withMacros (hd : d.WellFormed) (hhook : s.hook = none)
    (huntouched : ∀ origin content, Reaches d s entry text origin →
      contentOf d entry text origin = .ok content → ∀ statement ∈ Import.statements content,
        isExternal statement.target = false → IsUntouched macros statement.target) :
    dependencies d (s.withMacros macros) entry text = dependencies d s entry text ∧
      ((∀ path, Reaches d s entry text path → path ≠ entry →
        ∃ content, d.readText path = .ok content) →
        ∃ found, dependencies d s entry text = .ok found) := by
  have hs := Search.IsSteady.of_none (d := d) hhook
  constructor
  · refine dependencies_eq_of_follow_eq hs fun r hr asked => ?_
    obtain ⟨content, horigin, hcontent, hmem⟩ := hr
    obtain ⟨statement, hstatement, hr⟩ := List.mem_map.1 hmem
    have htarget : statement.target = r.target := congrArg Reference.target hr
    exact follow_withMacros hhook
      (htarget ▸ huntouched r.origin content horigin hcontent statement hstatement) asked
  · intro htext
    obtain ⟨found, hfound, -⟩ := exists_dependencies_discovery hd hs htext
    exact ⟨found, hfound⟩

/-- What takes part in a walk on the pair from its stylesheet is the stylesheet or its neighbour. -/
theorem eq_or_eq_of_contentOf_pairDisk {path content : String}
    (h : contentOf (Import.pairDisk text) entry text path = .ok content)
    (htext : '\r' ∉ text.toList) : content = text ∨ content = ".a \x7b\x7d" := by
  unfold contentOf at h
  split at h
  next => exact .inl (Except.ok.inj h).symm
  next =>
    obtain ⟨bytes, changed, -, hnode, hcontent⟩ := Disk.readText_eq_ok_iff.1 h
    have hmem := Table.mem_of_get? hnode
    simp only [Import.pairDisk, List.mem_cons, Prod.mk.injEq, reduceCtorEq, and_false,
      Node.file.injEq, List.not_mem_nil, or_false, false_or] at hmem
    rcases hmem with ⟨-, rfl, -⟩ | ⟨-, rfl, -⟩
    · rw [Disk.textOf_encode htext] at hcontent
      exact .inl (Except.ok.inj hcontent).symm
    · rw [Disk.textOf_encode (by decide)] at hcontent
      exact .inr (Except.ok.inj hcontent).symm

/-- A stylesheet that imports its neighbour on a roundabout way. -/
def roundabout : String := "@import '../s//./a';"

theorem statements_roundabout :
    Import.statements roundabout = [⟨"@import '../s//./a';", "../s//./a"⟩] :=
  Import.statements_of_parse? [] (by decide) (by decide) (by decide)

theorem wellFormed_roundabout : (Import.pairDisk roundabout).WellFormed :=
  .of_nodes (by decide +kernel) (by decide +kernel) (by decide +kernel)

/-- What is imported on the disk is untouched by the macro for a path. -/
theorem isUntouched_roundabout {content : String}
    (hcontent : contentOf (Import.pairDisk roundabout) entry roundabout origin = .ok content) :
    ∀ statement ∈ Import.statements content, IsUntouched [("~", "/m/")] statement.target := by
  intro statement hstatement
  rcases eq_or_eq_of_contentOf_pairDisk hcontent (by decide) with rfl | rfl
  · rw [statements_roundabout] at hstatement
    rw [List.mem_singleton.1 hstatement]
    exact ⟨by decide, by decide, by decide +kernel⟩
  · rw [Import.statements, Import.scan_eq_nil_of_not_mem (by decide)] at hstatement
    cases hstatement

/-- Both files on the disk hold text. -/
theorem exists_text_roundabout {path : String}
    (hreach : Reaches (Import.pairDisk roundabout) s entry text path) (hne : path ≠ entry) :
    ∃ content, (Import.pairDisk roundabout).readText path = .ok content := by
  refine exists_text_of_reaches wellFormed_roundabout ?_ hreach hne
  intro file hfile
  simp only [Disk.files, Import.pairDisk, List.filterMap_cons, List.filterMap_nil, List.mem_cons,
    List.not_mem_nil, or_false] at hfile
  rcases hfile with rfl | rfl
  · exact ⟨_, Disk.textOf_encode (by decide)⟩
  · exact ⟨_, Disk.textOf_encode (by decide)⟩

/-- The neighbour is found on its roundabout way, with the hook as without one. -/
theorem dependencies_withMacros_roundabout : (Import.pairDisk roundabout).WellFormed ∧
    plainSearch.hook = none ∧
    (∀ origin content,
      Reaches (Import.pairDisk roundabout) plainSearch "/s/main.scss" roundabout origin →
      contentOf (Import.pairDisk roundabout) "/s/main.scss" roundabout origin = .ok content →
      ∀ statement ∈ Import.statements content, isExternal statement.target = false →
        IsUntouched [("~", "/m/")] statement.target) ∧
    ∃ found, dependencies (Import.pairDisk roundabout) plainSearch "/s/main.scss" roundabout =
        .ok found ∧
      dependencies (Import.pairDisk roundabout) (plainSearch.withMacros [("~", "/m/")])
        "/s/main.scss" roundabout = .ok found ∧ "/s/a.scss" ∈ found := by
  have huntouched : ∀ origin content,
      Reaches (Import.pairDisk roundabout) plainSearch "/s/main.scss" roundabout origin →
      contentOf (Import.pairDisk roundabout) "/s/main.scss" roundabout origin = .ok content →
      ∀ statement ∈ Import.statements content, isExternal statement.target = false →
        IsUntouched [("~", "/m/")] statement.target :=
    fun _ _ _ hcontent statement hstatement _ => isUntouched_roundabout hcontent statement hstatement
  refine ⟨wellFormed_roundabout, rfl, huntouched, ?_⟩
  obtain ⟨hsame, hends⟩ := dependencies_withMacros wellFormed_roundabout rfl huntouched
  obtain ⟨found, hfound⟩ := hends fun _ => exists_text_roundabout
  have hleads : Leads (Import.pairDisk roundabout) plainSearch "/s/main.scss" "../s//./a"
      "/s/a.scss" := ⟨by decide, _, rfl, by decide +kernel⟩
  have himports : Imports (Import.pairDisk roundabout) plainSearch "/s/main.scss" roundabout
      "/s/main.scss" "/s/a.scss" :=
    ⟨_, rfl, ⟨"@import '../s//./a';", "../s//./a"⟩, by simp [statements_roundabout], hleads⟩
  have hlisted := mem_dependencies_iff wellFormed_roundabout (.of_none rfl) hfound "/s/a.scss"
  exact ⟨found, hfound, hsame.trans hfound, hlisted.2 ⟨by decide, .single himports⟩⟩

end StyleBundle.Dependency
