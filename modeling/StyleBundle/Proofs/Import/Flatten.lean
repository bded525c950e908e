import Mathlib.Data.List.Perm.Subperm
import Mathlib.Logic.Relation
import StyleBundle.Proofs.Import.Chain
import StyleBundle.Proofs.Import.Weave
import StyleBundle.Proofs.Text.Utf8

/-!
# Flattened stylesheets

Where imports do not come back to a stylesheet on the way to them, flattening comes to an end below
its bound, and more depth changes nothing. What it gives is, up to blanks, the stylesheet's own text
and behind it the flattened text of every target in the order of the statements.
-/

namespace StyleBundle.Import

variable {d : Disk} {root extension : String}

/-! ## Steps -/

section Steps

variable {f : String → Flattening} {statement : Statement} {rest : List Statement} {s : List Char}

/-- A target without a flattened text ends the work. -/
theorem replaceStatements_of_error {failure : Failure}
    (h : (f statement.target).result = .error failure) :
    replaceStatements f (statement :: rest) s = ⟨(f statement.target).reads, .error failure⟩ := by
  simp only [replaceStatements, h]

/-- The flattened text of a target is put behind what remains without the statement. -/
theorem replaceStatements_of_ok {text : List Char} (h : (f statement.target).result = .ok text) :
    replaceStatements f (statement :: rest) s =
      ⟨(f statement.target).reads ++
        (replaceStatements f rest (removeStatement statement.text.toList s ++ text)).reads,
        (replaceStatements f rest (removeStatement statement.text.toList s ++ text)).result⟩ := by
  simp only [replaceStatements, h]

/-- Replacing statements asks for the flattening of their targets only, up to the first one that
fails. -/
theorem replaceStatements_congr {f g : String → Flattening} {statements : List Statement}
    {s : List Char} (h : (replaceStatements f statements s).result ≠ .error .importCycle)
    (hfg : ∀ target, (f target).result ≠ .error .importCycle → g target = f target) :
    replaceStatements g statements s = replaceStatements f statements s := by
  induction statements generalizing s with
  | nil => rfl
  | cons statement rest ih =>
    cases hresult : (f statement.target).result with
    | error failure =>
      rw [replaceStatements_of_error hresult] at h ⊢
      have hsame := hfg _ (hresult ▸ h)
      rw [replaceStatements_of_error (hsame ▸ hresult), hsame]
    | ok text =>
      rw [replaceStatements_of_ok hresult] at h ⊢
      have hsame := hfg statement.target (by simp [hresult])
      rw [replaceStatements_of_ok (hsame ▸ hresult), hsame, ih h]

end Steps

section Limited

variable [Limits]

/-- A stylesheet that cannot be read ends the work. -/
theorem flattenWithin_of_error {depth : ℕ} {path : String} {failure : Failure}
    (h : sourceText d extension path = .error failure) :
    flattenWithin d root extension (depth + 1) path =
      ⟨[(entryPath extension path, read d (entryPath extension path))], .error failure⟩ := by
  have hread : (read d (entryPath extension path)).text = .error failure := h
  simp only [flattenWithin, flattenReading, hread]

/-- A stylesheet that can be read is flattened by replacing its statements. -/
theorem flattenWithin_of_ok {depth : ℕ} {path text : String}
    (h : sourceText d extension path = .ok text) :
    flattenWithin d root extension (depth + 1) path =
      ⟨(entryPath extension path, read d (entryPath extension path)) ::
        (replaceStatements (fun target => flattenWithin d root extension depth
          (targetPath root extension path target)) (statements text) text.toList).reads,
        (replaceStatements (fun target => flattenWithin d root extension depth
          (targetPath root extension path target)) (statements text) text.toList).result⟩ := by
  have hread : (read d (entryPath extension path)).text = .ok text := h
  simp only [flattenWithin, flattenReading, hread]

/-! ## Depth -/

/-- Without a limit flattening goes down as far as a chain of imports can. -/
theorem flatten_of_unbounded (h : Limits.flattenDepth = none) (d : Disk)
    (root extension path : String) :
    flatten d root extension path = flattenWithin d root extension (chainBound d) path := by
  rw [flatten, h, Option.getD_none]

/-- Flattening that comes to an end gives the same at a greater depth. -/
theorem flattenWithin_succ_of_ne {depth : ℕ} {path : String}
    (h : (flattenWithin d root extension depth path).result ≠ .error .importCycle) :
    flattenWithin d root extension (depth + 1) path = flattenWithin d root extension depth path := by
  induction depth generalizing path with
  | zero => exact absurd rfl h
  | succ depth ih =>
    cases htext : sourceText d extension path with
    | error failure => rw [flattenWithin_of_error htext, flattenWithin_of_error htext]
    | ok text =>
      rw [flattenWithin_of_ok htext] at h
      rw [flattenWithin_of_ok htext, flattenWithin_of_ok htext,
        replaceStatements_congr h fun target => ih]

/-- Flattening that gives a text gives the same at a greater depth. -/
theorem flattenWithin_succ_of_ok {depth : ℕ} {path : String} {out : List Char}
    (h : (flattenWithin d root extension depth path).result = .ok out) :
    flattenWithin d root extension (depth + 1) path = flattenWithin d root extension depth path :=
  flattenWithin_succ_of_ne (by simp [h])

/-! ## Chains of imports -/

/-- A stylesheet that is reached and has statements is the entry or one that a chain can go
through. -/
theorem mem_cons_chainNames {entry : String} (hroot : Path.isAbsolute (root ++ "/") = true)
    (hextension : '/' ∉ extension.toList) {path text : String}
    (hpath : Relation.ReflTransGen (Reads d root extension) entry path)
    (htext : sourceText d extension path = .ok text) (hne : statements text ≠ []) :
    path ∈ entry :: chainNames d extension := by
  rcases hpath.cases_tail with rfl | ⟨origin, _, hreads⟩
  · exact List.mem_cons_self ..
  · exact List.mem_cons_of_mem _ (mem_chainNames hroot hextension hreads htext hne)

end Limited

/-! ## Stylesheets without cycles -/

/-- A stylesheet whose imports can be followed to their ends: no read fails, every text reached is
on single lines, and no chain of imports comes back to where it was. -/
structure IsInlinable (d : Disk) (root extension entry : String) : Prop where
  /-- No read ends the work. -/
  readable : ∀ path, Relation.ReflTransGen (Reads d root extension) entry path →
    ∃ text, sourceText d extension path = .ok text
  /-- Every text reached is on single lines. -/
  singleLine : ∀ path, Relation.ReflTransGen (Reads d root extension) entry path →
    ∀ text, sourceText d extension path = .ok text → IsSingleLine text.toList
  /-- Nothing that is reached leads back to itself. -/
  acyclic : ∀ path, Relation.ReflTransGen (Reads d root extension) entry path →
    ¬ Relation.TransGen (Reads d root extension) path path

variable {entry : String}

/-- What is true of some text for every statement is true of a row of texts. -/
theorem exists_forall₂ {α β : Type} {R : α → β → Prop} {l : List α} (h : ∀ a ∈ l, ∃ b, R a b) :
    ∃ bs, List.Forall₂ R l bs := by
  induction l with
  | nil => exact ⟨[], .nil⟩
  | cons a rest ih =>
    obtain ⟨b, hb⟩ := h a (List.mem_cons_self ..)
    obtain ⟨bs, hbs⟩ := ih fun a ha => h a (List.mem_cons_of_mem _ ha)
    exact ⟨b :: bs, .cons hb hbs⟩

/-- Flattening comes to an end where the depth and the stylesheets on the way here are more than a
chain of imports can have. The trail grows by one stylesheet where the depth shrinks by one. -/
theorem IsInlinable.exists_flattenWithin (h : IsInlinable d root extension entry)
    (hroot : Path.isAbsolute root = true) (hextension : '/' ∉ extension.toList) {depth : ℕ}
    {path : String} (hpath : Relation.ReflTransGen (Reads d root extension) entry path)
    {trail : List String} (hnodup : trail.Nodup) (hmem : trail ⊆ entry :: chainNames d extension)
    (htrail : ∀ origin ∈ trail, Relation.TransGen (Reads d root extension) origin path)
    (hdepth : (entry :: chainNames d extension).length < depth + trail.length) :
    ∃ out, (flattenWithin d root extension depth path).result = .ok out ∧ '@' ∉ out := by
  induction depth generalizing path trail with
  | zero =>
    have hle := (hnodup.subperm hmem).length_le
    omega
  | succ depth ih =>
    obtain ⟨text, htext⟩ := h.readable path hpath
    have hwoven := (h.singleLine path hpath text htext).woven
    have hchildren : ∃ texts, List.Forall₂ (fun statement inlined =>
        (flattenWithin d root extension depth
          (targetPath root extension path statement.target)).result = .ok inlined ∧ '@' ∉ inlined)
        (statements text) texts := by
      refine exists_forall₂ fun statement hstatement => ?_
      have hreads : Reads d root extension path
          (targetPath root extension path statement.target) :=
        ⟨text, htext, statement, hstatement, rfl⟩
      have hnew : path ∉ trail := fun hold => h.acyclic path hpath (htrail path hold)
      have hchain := mem_cons_chainNames (Path.isAbsolute_append hroot "/") hextension hpath htext
        (List.ne_nil_of_mem hstatement)
      refine ih (hpath.tail hreads) (List.nodup_cons.2 ⟨hnew, hnodup⟩)
        (List.cons_subset.2 ⟨hchain, hmem⟩) ?_ ?_
      · intro origin horigin
        rcases List.mem_cons.1 horigin with rfl | horigin
        · exact .single hreads
        · exact (htrail origin horigin).tail hreads
      · simp only [List.length_cons] at hdepth ⊢
        omega
    obtain ⟨texts, htexts⟩ := hchildren
    obtain ⟨out, hout, hmark, -⟩ := replaceStatements_woven (f := fun target =>
      flattenWithin d root extension depth (targetPath root extension path target)) htexts hwoven
    refine ⟨out, ?_, hmark⟩
    rw [flattenWithin_of_ok htext]
    exact hout

/-- Every stylesheet that is reached has a flattened text, without at signs. -/
theorem IsInlinable.exists_flatten (h : IsInlinable d root extension entry)
    (hroot : Path.isAbsolute root = true) (hextension : '/' ∉ extension.toList) {path : String}
    (hpath : Relation.ReflTransGen (Reads d root extension) entry path) :
    ∃ out, (flatten d root extension path).result = .ok out ∧ '@' ∉ out := by
  have hlength := length_chainNames_lt d extension
  rw [flatten_of_unbounded rfl]
  refine h.exists_flattenWithin hroot hextension hpath List.nodup_nil (List.nil_subset _)
    (by simp) ?_
  simp only [List.length_cons, List.length_nil]
  omega

/-- The flattened text of a stylesheet is its own text without the statements and then the
flattened text of each target, in the order of the statements and as often as it is imported, up to
blanks. It holds no at sign, and thus no statement. -/
theorem flatten_eq_own_append (hroot : Path.isAbsolute root = true)
    (hextension : '/' ∉ extension.toList) (h : IsInlinable d root extension entry) {path : String}
    (hpath : Relation.ReflTransGen (Reads d root extension) entry path) :
    ∃ text out inlined, sourceText d extension path = .ok text ∧
      (flatten d root extension path).text = .ok out ∧
      List.Forall₂ (fun statement target =>
        (flatten d root extension (targetPath root extension path statement.target)).text =
          .ok target) (statements text) inlined ∧
      Text.dropBlanks out.toList = Text.dropBlanks (ownText text.toList) ++
        inlined.flatMap (fun target => Text.dropBlanks target.toList) ∧
      '@' ∉ out.toList ∧ statements out = [] := by
  obtain ⟨text, htext⟩ := h.readable path hpath
  have hwoven := (h.singleLine path hpath text htext).woven
  have hchildren : ∃ texts, List.Forall₂ (fun statement inlined =>
      (flatten d root extension (targetPath root extension path statement.target)).result =
        .ok inlined ∧ '@' ∉ inlined) (statements text) texts :=
    exists_forall₂ fun statement hstatement => h.exists_flatten hroot hextension
      (hpath.tail ⟨text, htext, statement, hstatement, rfl⟩)
  obtain ⟨texts, htexts⟩ := hchildren
  obtain ⟨out, hout, hmark, hblanks⟩ := replaceStatements_woven (f := fun target =>
    flatten d root extension (targetPath root extension path target)) htexts hwoven
  obtain ⟨out', hout', -⟩ := h.exists_flatten hroot hextension hpath
  have hflatten : (flatten d root extension path).result = .ok out := by
    rw [flatten_of_unbounded rfl] at hout' ⊢
    rw [← flattenWithin_succ_of_ok hout', flattenWithin_of_ok htext]
    exact hout
  refine ⟨text, String.ofList out, texts.map String.ofList, htext, ?_, ?_, ?_, ?_, ?_⟩
  · simp [Flattening.text, hflatten, Except.map]
  · refine List.forall₂_map_right_iff.2 (htexts.imp fun statement inlined hinlined => ?_)
    simp [Flattening.text, hinlined.1, Except.map]
  · simpa [List.flatMap_map] using hblanks
  · simpa using hmark
  · simpa [statements] using scan_eq_nil_of_not_mem hmark

/-! ## A stylesheet imported twice -/

/-- A disk that holds a stylesheet and its neighbour. -/
def pairDisk (text : String) : Disk where
  nodes := [([], .directory ⟨0⟩), (["s"], .directory ⟨0⟩),
    (["s", "main.scss"], .file (Text.Utf8.encode text.toList) ⟨0⟩),
    (["s", "a.scss"], .file (Text.Utf8.encode ".a \x7b\x7d".toList) ⟨0⟩)]
  home := ["s"]
  clock := ⟨1⟩

/-- What the disk holds is read. -/
structure ReadsPair (text : String) : Prop where
  /-- The stylesheet. -/
  main : sourceText (pairDisk text) ".scss" "/s/main.scss" = .ok text
  /-- Its neighbour. -/
  neighbour : sourceText (pairDisk text) ".scss" "/s/a.scss" = .ok ".a \x7b\x7d"

namespace ReadsPair

variable {text first second path : String}

/-- A stylesheet that imports its neighbour twice reads nothing else. -/
theorem eq_of_reads_main (h : ReadsPair text)
    (hstatements : statements text = [⟨first, "a"⟩, ⟨second, "a"⟩])
    (hreads : Reads (pairDisk text) "/s" ".scss" "/s/main.scss" path) : path = "/s/a.scss" := by
  obtain ⟨source, hsource, statement, hstatement, rfl⟩ := hreads
  obtain rfl := Except.ok.inj (h.main.symm.trans hsource)
  have htarget : statement.target = "a" := by
    rw [hstatements] at hstatement
    rcases List.mem_cons.1 hstatement with rfl | hstatement
    · rfl
    · rw [List.mem_singleton.1 hstatement]
  rw [htarget]
  decide +kernel

/-- The neighbour reads nothing. -/
theorem not_reads_neighbour (h : ReadsPair text) :
    ¬ Reads (pairDisk text) "/s" ".scss" "/s/a.scss" path := by
  rintro ⟨source, hsource, statement, hstatement, -⟩
  obtain rfl := Except.ok.inj (h.neighbour.symm.trans hsource)
  rw [statements, scan_eq_nil_of_not_mem (by decide)] at hstatement
  cases hstatement

/-- A stylesheet that imports its neighbour twice reaches nothing else. -/
theorem eq_or_eq_of_reaches (h : ReadsPair text)
    (hstatements : statements text = [⟨first, "a"⟩, ⟨second, "a"⟩])
    (hreach : Relation.ReflTransGen (Reads (pairDisk text) "/s" ".scss") "/s/main.scss" path) :
    path = "/s/main.scss" ∨ path = "/s/a.scss" := by
  induction hreach with
  | refl => exact .inl rfl
  | tail _ hreads ih =>
    rcases ih with rfl | rfl
    · exact .inr (h.eq_of_reads_main hstatements hreads)
    · exact absurd hreads h.not_reads_neighbour

end ReadsPair

/-- A stylesheet that imports its neighbour once and once more. -/
def twiceImporting : String := "@import 'a';@import \"a\";\n.m \x7b\x7d\n"

/-- A disk that holds the stylesheet and its neighbour. -/
def twiceDisk : Disk where
  nodes := [([], .directory ⟨0⟩), (["s"], .directory ⟨0⟩),
    (["s", "main.scss"], .file (Text.Utf8.encode twiceImporting.toList) ⟨0⟩),
    (["s", "a.scss"], .file (Text.Utf8.encode ".a \x7b\x7d".toList) ⟨0⟩)]
  home := ["s"]
  clock := ⟨1⟩

theorem sourceText_of_readBytes {path text : String}
    (hbytes : d.readBytes (entryPath extension path) = .ok (Text.Utf8.encode text.toList))
    (htext : '\r' ∉ text.toList) : sourceText d extension path = .ok text := by
  have hread : d.readText (entryPath extension path) = .ok text := by
    rw [Disk.readText, hbytes]
    exact Disk.textOf_encode htext
  simp only [sourceText, read, hread, Reading.text]

theorem sourceText_twiceDisk_main :
    sourceText twiceDisk ".scss" "/s/main.scss" = .ok twiceImporting :=
  sourceText_of_readBytes (by decide +kernel) (by decide)

theorem sourceText_twiceDisk_neighbour :
    sourceText twiceDisk ".scss" "/s/a.scss" = .ok ".a \x7b\x7d" :=
  sourceText_of_readBytes (by decide +kernel) (by decide)

theorem parse?_first : parse? ('@' :: "import 'a';".toList ++
    ('@' :: "import \"a\";".toList ++ "\n.m \x7b\x7d\n".toList)) =
    some ("a".toList, '@' :: "import \"a\";".toList ++ "\n.m \x7b\x7d\n".toList) := by decide

theorem parse?_second : parse? ('@' :: "import \"a\";".toList ++ "\n.m \x7b\x7d\n".toList) =
    some ("a".toList, "\n.m \x7b\x7d\n".toList) := by decide

theorem statements_twiceImporting :
    statements twiceImporting = [⟨"@import 'a';", "a"⟩, ⟨"@import \"a\";", "a"⟩] := by
  have hrest := scan_append_of_parse?_eq_some parse?_second
  rw [scan_eq_nil_of_not_mem (s := "\n.m \x7b\x7d\n".toList) (by decide)] at hrest
  exact (scan_append_of_parse?_eq_some parse?_first).trans (congrArg _ hrest)

theorem ownText_twiceImporting : ownText twiceImporting.toList = "\n.m \x7b\x7d\n".toList := by
  refine (ownText_of_parse?_eq_some parse?_first).trans ?_
  rw [ownText_of_parse?_eq_some parse?_second]
  exact ownText_eq_self_of_not_mem (by decide)

theorem isSingleLine_twiceImporting : IsSingleLine twiceImporting.toList :=
  .append parse?_first ⟨by decide, by decide, by decide, by decide⟩
    (.append parse?_second ⟨by decide, by decide, by decide, by decide⟩
      (.of_not_mem (by decide)))

theorem readsPair_twiceImporting : ReadsPair twiceImporting :=
  ⟨sourceText_twiceDisk_main, sourceText_twiceDisk_neighbour⟩

theorem eq_of_reads_twiceDisk_main {path : String}
    (h : Reads twiceDisk "/s" ".scss" "/s/main.scss" path) : path = "/s/a.scss" :=
  readsPair_twiceImporting.eq_of_reads_main statements_twiceImporting h

theorem not_reads_twiceDisk_neighbour {path : String} :
    ¬ Reads twiceDisk "/s" ".scss" "/s/a.scss" path :=
  readsPair_twiceImporting.not_reads_neighbour

theorem eq_or_eq_of_reaches_twiceDisk {path : String}
    (h : Relation.ReflTransGen (Reads twiceDisk "/s" ".scss") "/s/main.scss" path) :
    path = "/s/main.scss" ∨ path = "/s/a.scss" :=
  readsPair_twiceImporting.eq_or_eq_of_reaches statements_twiceImporting h

theorem isInlinable_twiceDisk : IsInlinable twiceDisk "/s" ".scss" "/s/main.scss" where
  readable path h := by
    rcases eq_or_eq_of_reaches_twiceDisk h with rfl | rfl
    · exact ⟨_, sourceText_twiceDisk_main⟩
    · exact ⟨_, sourceText_twiceDisk_neighbour⟩
  singleLine path h text htext := by
    rcases eq_or_eq_of_reaches_twiceDisk h with rfl | rfl
    · obtain rfl := Except.ok.inj (sourceText_twiceDisk_main.symm.trans htext)
      exact isSingleLine_twiceImporting
    · obtain rfl := Except.ok.inj (sourceText_twiceDisk_neighbour.symm.trans htext)
      exact .of_not_mem (by decide)
  acyclic path h hcycle := by
    obtain ⟨origin, horigin, hreads⟩ := Relation.TransGen.tail'_iff.1 hcycle
    rcases eq_or_eq_of_reaches_twiceDisk (h.trans horigin) with rfl | rfl
    · obtain rfl := eq_of_reads_twiceDisk_main hreads
      obtain ⟨next, hnext, -⟩ := Relation.TransGen.head'_iff.1 hcycle
      exact not_reads_twiceDisk_neighbour hnext
    · exact not_reads_twiceDisk_neighbour hreads

/-- A stylesheet that imports its neighbour twice holds it twice. -/
theorem flatten_twiceDisk : Path.isAbsolute "/s" = true ∧ '/' ∉ ".scss".toList ∧
    IsInlinable twiceDisk "/s" ".scss" "/s/main.scss" ∧
    ∃ out, (flatten twiceDisk "/s" ".scss" "/s/main.scss").text = .ok out ∧
      Text.dropBlanks out.toList = ".m\x7b\x7d.a\x7b\x7d.a\x7b\x7d".toList := by
  refine ⟨rfl, by decide, isInlinable_twiceDisk, ?_⟩
  have hneighbour : targetPath "/s" ".scss" "/s/main.scss" "a" = "/s/a.scss" := by decide +kernel
  have hstep : Reads twiceDisk "/s" ".scss" "/s/main.scss" "/s/a.scss" :=
    ⟨_, sourceText_twiceDisk_main, ⟨"@import 'a';", "a"⟩, by simp [statements_twiceImporting],
      hneighbour.symm⟩
  obtain ⟨text, out, inlined, htext, hout, hinlined, hblanks, -⟩ :=
    flatten_eq_own_append rfl (by decide) isInlinable_twiceDisk .refl
  obtain ⟨text', out', inlined', htext', hout', hinlined', hblanks', -⟩ :=
    flatten_eq_own_append rfl (by decide) isInlinable_twiceDisk (.single hstep)
  obtain rfl := Except.ok.inj (sourceText_twiceDisk_main.symm.trans htext)
  obtain rfl := Except.ok.inj (sourceText_twiceDisk_neighbour.symm.trans htext')
  have hown : ownText ".a \x7b\x7d".toList = ".a \x7b\x7d".toList :=
    ownText_eq_self_of_not_mem (by decide)
  rw [statements, scan_eq_nil_of_not_mem (by decide), List.forall₂_nil_left_iff] at hinlined'
  rw [hinlined', hown] at hblanks'
  rw [statements_twiceImporting] at hinlined
  obtain _ | ⟨hfirst, _ | ⟨hsecond, ⟨⟩⟩⟩ := hinlined
  rw [hneighbour, hout'] at hfirst hsecond
  obtain rfl := Except.ok.inj hfirst
  obtain rfl := Except.ok.inj hsecond
  refine ⟨out, hout, ?_⟩
  rw [hblanks, ownText_twiceImporting, List.flatMap_cons, List.flatMap_cons, hblanks']
  decide

end StyleBundle.Import
