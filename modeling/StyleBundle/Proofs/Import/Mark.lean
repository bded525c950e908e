import StyleBundle.Proofs.Import.Order
import StyleBundle.Proofs.Text.Search

/-!
# Statements that are left over

A statement is looked for as it stands in the source, in a text that has been trimmed and freed of
line breaks since, and to which other texts have been added. It is found in its place as long as the
last statement has lost nothing by the trimming, and no statement that spans lines is found where the
last one runs into a text that was added. Then nothing of a statement, and thus no at sign, is left.
-/

namespace StyleBundle

namespace Import

/-! ## Marks -/

/-- A text in which an at sign stands nowhere but at the start of a statement. -/
structure IsMarked (s : List Char) : Prop where
  /-- No at sign stands outside the statements. -/
  own : '@' ∉ ownText s
  /-- None stands inside a statement. -/
  inside : ∀ statement ∈ scan s, '@' ∉ statement.text.toList.tail

/-- A text without at signs has none in a wrong place. -/
theorem IsMarked.of_not_mem {s : List Char} (h : '@' ∉ s) : IsMarked s where
  own := by rwa [ownText_eq_self_of_not_mem h]
  inside := by rw [scan_eq_nil_of_not_mem h]; simp

/-- The ways in which the last statement of a text with several can be lost. -/
inductive IsFrayed (s : List Char) : Prop
  /-- Nothing but blanks follows the last statement, which ends with a blank itself: the blanks are
  trimmed, and the statement is looked for with its own. -/
  | trimmed {first last : Statement} {rest : List Statement} {front tail : List Char} {c : Char}
      (h : scan s = first :: rest) (hlast : rest.getLast? = some last)
      (hs : s = front ++ (last.text.toList ++ tail)) (htail : ∀ d ∈ tail, Text.isBlank d = true)
      (hend : last.text.toList.getLast? = some c) (hc : Text.isBlank c = true)
  /-- The first line of a statement behind the first one starts with the last statement: it may be
  found in the last one's place, with the rest of it in a text that was added. -/
  | shadowed {first statement last : Statement} {rest : List Statement}
      (h : scan s = first :: rest) (hlast : rest.getLast? = some last) (hmem : statement ∈ rest)
      (hbroken : ∃ c ∈ statement.text.toList, Text.isLineBreak c = true)
      (hstarts : Text.dropLineBreaks last.text.toList <+:
        statement.text.toList.takeWhile fun c => !Text.isLineBreak c)

theorem not_isFrayed_of_not_mem {s : List Char} (h : '@' ∉ s) : ¬ IsFrayed s := by
  have hnone := scan_eq_nil_of_not_mem h
  intro hfrayed
  cases hfrayed with
  | trimmed hscan | shadowed hscan => cases hnone.symm.trans hscan

/-- Texts that start with an at sign, in order, and gaps between them; the last text is the end. No
other at sign stands there. -/
inductive Strewn : (texts : List (List Char)) → (s : List Char) → Prop
  /-- Nothing. -/
  | nil : Strewn [] []
  /-- A gap and a text. -/
  | cons {gap body s : List Char} {texts : List (List Char)} (hgap : '@' ∉ gap)
      (hbody : '@' ∉ body) (h : Strewn texts s) :
      Strewn (('@' :: body) :: texts) (gap ++ ('@' :: body ++ s))

namespace Strewn

variable {texts : List (List Char)} {last s gap tail : List Char}

/-- Texts take room. -/
theorem ne_nil (h : Strewn texts s) (hne : texts ≠ []) : s ≠ [] := by
  cases h with
  | nil => exact absurd rfl hne
  | cons => simp

/-- The gap in front may be longer. -/
theorem append_left (h : Strewn texts s) (hne : texts ≠ []) (hgap : '@' ∉ gap) :
    Strewn texts (gap ++ s) := by
  cases h with
  | nil => exact absurd rfl hne
  | cons hgap' hbody h =>
    rw [← List.append_assoc]
    exact .cons (by simp [hgap, hgap']) hbody h

/-- Line breaks may be dropped. -/
theorem dropLineBreaks (h : Strewn texts s) :
    Strewn (texts.map Text.dropLineBreaks) (Text.dropLineBreaks s) := by
  induction h with
  | nil => exact .nil
  | @cons gap body s texts hgap hbody h ih =>
    have hmark : Text.dropLineBreaks ('@' :: body) = '@' :: Text.dropLineBreaks body := by
      rw [Text.dropLineBreaks_cons, if_neg (by decide)]
    rw [List.map_cons, Text.dropLineBreaks_append, Text.dropLineBreaks_append, hmark]
    exact .cons (fun hmem => hgap (Text.mem_dropLineBreaks.1 hmem).1)
      (fun hmem => hbody (Text.mem_dropLineBreaks.1 hmem).1) ih

/-- Blanks may be taken off the front, since no text starts with one. -/
theorem trimStart (h : Strewn texts s) (hne : texts ≠ []) (tail : List Char) :
    ∃ s', Text.trimStart (s ++ tail) = s' ++ tail ∧ Strewn texts s' ∧
      s'.getLast? = s.getLast? := by
  cases h with
  | nil => exact absurd rfl hne
  | @cons gap body s texts hgap hbody h =>
    have hsame (gap : List Char) :
        (gap ++ ('@' :: body ++ s)).getLast? = ('@' :: body ++ s).getLast? :=
      List.getLast?_append_of_ne_nil _ (by simp)
    induction gap with
    | nil =>
      refine ⟨_, ?_, .cons (by simp) hbody h, rfl⟩
      rw [List.nil_append, List.cons_append, List.cons_append, Text.trimStart_cons,
        if_neg (by decide)]
    | cons c gap ih =>
      simp only [List.mem_cons, not_or] at hgap
      rw [List.cons_append, List.cons_append, Text.trimStart_cons]
      split
      next =>
        obtain ⟨s', htrim, hs', hlast⟩ := ih hgap.2
        exact ⟨s', htrim, hs', by rw [hlast, hsame, ← List.cons_append, hsame]⟩
      next =>
        exact ⟨c :: gap ++ ('@' :: body ++ s), rfl,
          .cons (by simpa using hgap) hbody h, rfl⟩

/-- The last text is the end. -/
theorem exists_eq_append (h : Strewn texts s) (hlast : texts.getLast? = some last) :
    ∃ front, s = front ++ last := by
  induction h with
  | nil => cases hlast
  | @cons gap body s texts hgap hbody h ih =>
    cases h with
    | nil =>
      obtain rfl : '@' :: body = last := by simpa using hlast
      exact ⟨gap, by simp⟩
    | cons =>
      obtain ⟨front, hfront⟩ := ih (by simpa using hlast)
      exact ⟨gap ++ ('@' :: body ++ front), by rw [hfront]; simp⟩

/-- Where texts and gaps stand on one line, an occurrence of something that spans lines starts with
the last text: only behind that one there are line breaks. -/
theorem prefix_of_occurrence (h : Strewn texts s) (hflat : ∀ c ∈ s, Text.isLineBreak c = false)
    (htail : '@' ∉ tail) {body before behind : List Char} (hbody : '@' ∉ body)
    (hbroken : ∃ c ∈ body, Text.isLineBreak c = true)
    (hoccurs : s ++ tail = before ++ ('@' :: body ++ behind)) : ∃ last,
      texts.getLast? = some last ∧
        last <+: ('@' :: body).takeWhile fun c => !Text.isLineBreak c := by
  have hspans {front : List Char} (hfront : ∀ c ∈ front, Text.isLineBreak c = false) :
      ¬ body <+: front := by
    intro hstarts
    obtain ⟨c, hc, hbreak⟩ := hbroken
    simp [hfront c (hstarts.subset hc)] at hbreak
  induction h generalizing before with
  | nil =>
    rw [List.nil_append] at hoccurs
    exact absurd (by simp [hoccurs]) htail
  | @cons gap text s texts hgap htext h ih =>
    have hsplit : gap ++ '@' :: (text ++ (s ++ tail)) = before ++ '@' :: (body ++ behind) := by
      simpa using hoccurs
    rcases Text.eq_or_exists_of_append_cons hgap hsplit with ⟨-, hrest⟩ | ⟨more, -, hrest⟩
    · -- The occurrence starts where the first text does.
      cases h with
      | nil =>
        have hsame : text ++ tail = body ++ behind := by simpa using hrest
        have hflat' : ∀ c ∈ '@' :: text, Text.isLineBreak c = false := fun c hc =>
          hflat c (List.mem_append_right _ (List.mem_append_left _ hc))
        refine ⟨'@' :: text, rfl, Text.prefix_takeWhile ?_ fun c hc => by simp [hflat' c hc]⟩
        rw [List.prefix_cons_inj]
        rcases List.prefix_or_prefix_of_prefix (List.prefix_append text tail)
          (hsame ▸ List.prefix_append body behind) with hstarts | hstarts
        · exact hstarts
        · exact absurd hstarts (hspans fun c hc => hflat' c (List.mem_cons_of_mem _ hc))
      | @cons gap' text' s' texts' =>
        have hlong : body ++ behind = (text ++ gap') ++ '@' :: (text' ++ s' ++ tail) := by
          simpa using hrest.symm
        refine absurd (Text.prefix_of_append_eq hbody hlong) (hspans fun c hc => hflat c ?_)
        rcases List.mem_append.1 hc with hc | hc <;> simp [hc]
    · -- It starts behind that.
      obtain ⟨more', rfl⟩ := Text.prefix_of_append_eq htext hrest
      have hnext : s ++ tail = more' ++ ('@' :: body ++ behind) := by simpa using hrest
      obtain ⟨last, hlast, hstarts⟩ := ih (fun c hc => hflat c (by simp [hc])) hnext
      exact ⟨last, by rw [List.getLast?_cons, hlast]; rfl, hstarts⟩

/-- Every text is an at sign and a rest without one. -/
theorem exists_body_of_mem (h : Strewn texts s) {text : List Char} (hmem : text ∈ texts) :
    ∃ body, text = '@' :: body ∧ '@' ∉ body := by
  induction h with
  | nil => cases hmem
  | cons _ hbody _ ih =>
    rcases List.mem_cons.1 hmem with rfl | hmem
    · exact ⟨_, rfl, hbody⟩
    · exact ih hmem

end Strewn

/-- A text with marks is strewn with its statements, up to what follows the last one. -/
theorem IsMarked.exists_strewn {s : List Char} (h : IsMarked s) : ∃ front tail, s = front ++ tail ∧
    Strewn ((scan s).map (·.text.toList)) front ∧ '@' ∉ tail := by
  induction s using scan_induction with
  | nil =>
    rw [scan]
    exact ⟨[], [], rfl, .nil, by simp⟩
  | own c rest hparse ih =>
    obtain ⟨hown, hinside⟩ := h
    rw [scan_cons_of_parse?_eq_none hparse] at hinside ⊢
    rw [ownText_cons_of_parse?_eq_none hparse, List.mem_cons, not_or] at hown
    obtain ⟨front, tail, rfl, hstrewn, htail⟩ := ih ⟨hown.2, hinside⟩
    by_cases hnone : scan (front ++ tail) = []
    · rw [hnone] at hstrewn ⊢
      cases hstrewn
      exact ⟨[], c :: tail, rfl, .nil, by simpa using ⟨hown.1, htail⟩⟩
    · exact ⟨[c] ++ front, tail, rfl, hstrewn.append_left (by simpa using hnone)
        (by simpa using hown.1), htail⟩
  | statement body target after hparse ih =>
    obtain ⟨hown, hinside⟩ := h
    rw [ownText_of_parse?_eq_some hparse] at hown
    rw [scan_append_of_parse?_eq_some hparse] at hinside ⊢
    obtain ⟨hfirst, hrest⟩ := List.forall_mem_cons.1 hinside
    obtain ⟨front, tail, rfl, hstrewn, htail⟩ := ih ⟨hown, hrest⟩
    refine ⟨[] ++ ('@' :: body ++ front), tail, by simp, ?_, htail⟩
    rw [List.map_cons, String.toList_ofList]
    exact .cons (by simp) (by simpa using hfirst) hstrewn

/-! ## Taking statements out -/

section Removal

variable {texts : List (List Char)} {body front tail raw s : List Char}

/-- A text in two parts, of which the first is strewn with texts and the second has no at sign. -/
structure Keeps (texts : List (List Char)) (front tail : List Char) : Prop where
  /-- The texts stand in the first part. -/
  strewn : Strewn texts front
  /-- Nothing else is marked. -/
  unmarked : '@' ∉ tail

/-- Trimming the end of a text in two parts does not reach the first. -/
def IsFirm (front tail : List Char) : Prop :=
  (∃ c ∈ tail, Text.isBlank c = false) ∨ ∃ above c, front = above ++ [c] ∧ Text.isBlank c = false

/-- Trimming and dropping line breaks leaves the texts, each on one line. -/
theorem Keeps.settle (h : Keeps texts front tail) (hne : texts ≠ []) (hfirm : IsFirm front tail) :
    ∃ front' tail', Text.dropLineBreaks (Text.trim (front ++ tail)) = front' ++ tail' ∧
      Keeps (texts.map Text.dropLineBreaks) front' tail' ∧ IsFirm front' tail' ∧
      ∀ c ∈ front', Text.isLineBreak c = false := by
  obtain ⟨s, htrim, hs, hlast⟩ := h.strewn.trimStart hne tail
  have hflat : ∀ c ∈ Text.dropLineBreaks s, Text.isLineBreak c = false :=
    fun c hc => (Text.mem_dropLineBreaks.1 hc).2
  have hunbroken {c : Char} (hc : Text.isBlank c = false) : Text.isLineBreak c = false := by
    rw [Bool.eq_false_iff]
    intro hbreak
    simp [Text.isBlank_of_isLineBreak hbreak] at hc
  rw [Text.trim, htrim]
  by_cases hmem : ∃ c ∈ tail, Text.isBlank c = false
  · rw [Text.trimEnd_append_of_mem hmem, Text.dropLineBreaks_append]
    obtain ⟨c, hc, hblank⟩ := hmem
    refine ⟨_, _, rfl, ⟨hs.dropLineBreaks, fun hmark => ?_⟩, .inl ⟨c, ?_, hblank⟩, hflat⟩
    · have hmark := (Text.mem_dropLineBreaks.1 hmark).1
      rw [Text.trimEnd, List.mem_reverse] at hmark
      exact h.unmarked (List.mem_reverse.1 ((List.dropWhile_suffix _).subset hmark))
    · exact Text.mem_dropLineBreaks.2 ⟨Text.mem_trimEnd_of_mem hc hblank, hunbroken hblank⟩
  · obtain ⟨above, c, hfront, hblank⟩ := hfirm.resolve_left hmem
    have hall : ∀ d ∈ tail, Text.isBlank d = true := by simpa using hmem
    have hend : s.getLast? = some c := by rw [hlast, hfront, List.getLast?_concat]
    obtain ⟨above', rfl⟩ := List.getLast?_eq_some_iff.1 hend
    rw [Text.trimEnd_concat_append hall hblank]
    refine ⟨_, [], (List.append_nil _).symm, ⟨hs.dropLineBreaks, by simp⟩,
      .inr ⟨Text.dropLineBreaks above', c, ?_, hblank⟩, hflat⟩
    rw [Text.dropLineBreaks_append, Text.dropLineBreaks_eq_self (s := [c])]
    simpa using hunbroken hblank

/-- A text from which texts can be taken out in turn, each at its first occurrence. -/
inductive Ready : (texts : List (List Char)) → (s : List Char) → Prop
  /-- No text, and no at sign, is left. -/
  | done {s : List Char} (h : '@' ∉ s) : Ready [] s
  /-- Texts are left, each on one line. -/
  | more {texts : List (List Char)} {front tail : List Char} (hne : texts ≠ [])
      (h : Keeps texts front tail) (hfirm : IsFirm front tail)
      (hflat : ∀ c ∈ front, Text.isLineBreak c = false) : Ready texts (front ++ tail)

/-- What has no at sign may be put behind. -/
theorem Ready.append (h : Ready texts s) {t : List Char} (ht : '@' ∉ t) : Ready texts (s ++ t) := by
  cases h with
  | done h => exact .done (by simp [h, ht])
  | @more _ front tail hne h hfirm hflat =>
    rw [List.append_assoc]
    refine .more hne ⟨h.strewn, by simp [h.unmarked, ht]⟩ (hfirm.imp_left ?_) hflat
    rintro ⟨c, hc, hblank⟩
    exact ⟨c, List.mem_append_left _ hc, hblank⟩

/-- The first text is found in its place, and the others are ready without it. -/
theorem Keeps.ready (h : Keeps (('@' :: body) :: texts) front tail)
    (hfirm : texts ≠ [] → IsFirm front tail) : Ready (texts.map Text.dropLineBreaks)
      (Text.dropLineBreaks (Text.trim (Text.replaceFirst ('@' :: body) [] (front ++ tail)))) := by
  obtain ⟨hstrewn, htail⟩ := h
  cases hstrewn with
  | @cons gap _ s _ hgap hbody hrest =>
    have hremoved : Text.replaceFirst ('@' :: body) [] (gap ++ ('@' :: body ++ s) ++ tail) =
        gap ++ s ++ tail := by
      rw [List.append_assoc, List.append_assoc ('@' :: body), Text.replaceFirst,
        Text.cut?_append_cons hgap]
      simp
    rw [hremoved]
    by_cases hne : texts = []
    · subst hne
      cases hrest
      refine .done fun hmark => ?_
      have hmem := Text.mem_of_mem_trim (Text.mem_dropLineBreaks.1 hmark).1
      simp [hgap, htail] at hmem
    · have hfirm' : IsFirm (gap ++ s) tail := by
        refine (hfirm hne).imp_right ?_
        rintro ⟨above, c, hfront, hblank⟩
        obtain ⟨above', d, rfl⟩ := (List.eq_nil_or_concat s).resolve_left (hrest.ne_nil hne)
        have hend : gap ++ ('@' :: body ++ above') ++ [d] = above ++ [c] := by simpa using hfront
        obtain ⟨-, hd⟩ := List.append_inj' hend rfl
        exact ⟨gap ++ above', d, by simp, by rwa [List.singleton_inj.1 hd]⟩
      obtain ⟨front', tail', hsame, hkeeps, hfirm', hflat⟩ :=
        Keeps.settle ⟨hrest.append_left hne hgap, htail⟩ hne hfirm'
      rw [hsame]
      exact .more (by simpa using hne) hkeeps hfirm' hflat

/-- Whatever starts with an at sign is found in the place of the only text. -/
theorem Keeps.not_mem_of_occurrence {text before behind : List Char} (h : Keeps [text] front tail)
    (hoccurs : front ++ tail = before ++ ('@' :: body ++ behind)) : '@' ∉ before ++ behind := by
  obtain ⟨hstrewn, htail⟩ := h
  cases hstrewn with
  | @cons gap text _ _ hgap htext hrest =>
    cases hrest
    have hone : gap ++ '@' :: (text ++ tail) = before ++ '@' :: (body ++ behind) := by
      simpa using hoccurs
    have hmark : '@' ∉ text ++ tail := by simp [htext, htail]
    rcases Text.eq_or_exists_of_append_cons hgap hone with ⟨rfl, hafter⟩ | ⟨more, -, hafter⟩
    · rw [hafter] at hmark
      simp only [List.mem_append, not_or] at hmark ⊢
      exact ⟨hgap, hmark.2⟩
    · exact absurd (by simp [hafter]) hmark

/-- A statement is taken out where its text stands on one line, and the others are ready without it.
That its text as it stands in the source is found elsewhere is left to the last one. -/
theorem Ready.removeStatement (h : Ready (Text.dropLineBreaks raw :: texts) s)
    (hraw : ∃ body, raw = '@' :: body ∧ '@' ∉ body) (hsame : texts.map Text.dropLineBreaks = texts)
    (hfree : (∃ c ∈ raw, Text.isLineBreak c = true) → ∀ last, texts.getLast? = some last →
      ¬ last <+: raw.takeWhile fun c => !Text.isLineBreak c) :
    Ready texts (removeStatement raw s) := by
  obtain ⟨body, rfl, hbody⟩ := hraw
  cases h with
  | @more _ front tail hne h hfirm hflat =>
    have hmark : Text.dropLineBreaks ('@' :: body) = '@' :: Text.dropLineBreaks body := by
      rw [Text.dropLineBreaks_cons, if_neg (by decide)]
    rw [Import.removeStatement]
    by_cases hfound : Text.contains ('@' :: body) (front ++ tail) = true ∧
        ∃ c ∈ '@' :: body, Text.isLineBreak c = true
    · obtain ⟨hcontains, hbroken⟩ := hfound
      obtain ⟨⟨before, behind⟩, hcut⟩ := Option.isSome_iff_exists.1 hcontains
      have hoccurs := Text.eq_append_of_cut? hcut
      rw [List.append_assoc] at hoccurs
      have hbroken' : ∃ c ∈ body, Text.isLineBreak c = true := by
        simpa [show Text.isLineBreak '@' = false by decide] using hbroken
      obtain ⟨last, hlast, hstarts⟩ :=
        h.strewn.prefix_of_occurrence hflat h.unmarked hbody hbroken' hoccurs
      have hnone : texts = [] := by
        by_contra hsome
        rw [List.getLast?_cons, List.getLast?_eq_some_getLast hsome] at hlast
        refine hfree hbroken last ?_ hstarts
        rw [List.getLast?_eq_some_getLast hsome]
        exact hlast
      subst hnone
      refine .done fun hmem => h.not_mem_of_occurrence hoccurs ?_
      rw [if_pos hcontains, Text.replaceFirst, hcut] at hmem
      simpa using Text.mem_of_mem_trim (Text.mem_dropLineBreaks.1 hmem).1
    · have hsearched : (if Text.contains ('@' :: body) (front ++ tail) = true then '@' :: body
          else Text.dropLineBreaks ('@' :: body)) = Text.dropLineBreaks ('@' :: body) := by
        split
        next hcontains =>
          refine (Text.dropLineBreaks_eq_self fun c hc => ?_).symm
          rw [Bool.eq_false_iff]
          exact fun hbreak => hfound ⟨hcontains, c, hc, hbreak⟩
        next => rfl
      rw [hsearched, hmark, ← hsame]
      rw [hmark] at h
      exact h.ready fun _ => hfirm

end Removal

/-- Behind the first statement the others are ready, unless the text is frayed. -/
theorem IsMarked.ready {s : List Char} {first : Statement} {rest : List Statement} (h : IsMarked s)
    (hfrayed : ¬ IsFrayed s) (hscan : scan s = first :: rest) :
    Ready (rest.map fun statement => Text.dropLineBreaks statement.text.toList)
      (removeStatement first.text.toList s) := by
  obtain ⟨front, tail, rfl, hstrewn, htail⟩ := h.exists_strewn
  rw [hscan, List.map_cons] at hstrewn
  obtain ⟨body, hbody, -⟩ := hstrewn.exists_body_of_mem (List.mem_cons_self ..)
  have hfirm (hne : rest.map (·.text.toList) ≠ []) : IsFirm front tail := by
    by_cases hmem : ∃ c ∈ tail, Text.isBlank c = false
    · exact .inl hmem
    · obtain ⟨init, last, hinit⟩ := (List.eq_nil_or_concat rest).resolve_left (by simpa using hne)
      have hlast : rest.getLast? = some last := by
        rw [hinit, List.concat_eq_append, List.getLast?_concat]
      have htexts : (first.text.toList :: rest.map (·.text.toList)).getLast? =
          some last.text.toList := by
        rw [List.getLast?_cons, List.getLast?_map, hlast]
        rfl
      obtain ⟨above, rfl⟩ := hstrewn.exists_eq_append htexts
      obtain ⟨lastBody, hlastBody, -⟩ := hstrewn.exists_body_of_mem (List.mem_of_getLast? htexts)
      obtain ⟨most, c, hend⟩ :=
        (List.eq_nil_or_concat last.text.toList).resolve_left (by simp [hlastBody])
      rw [List.concat_eq_append] at hend
      refine .inr ⟨above ++ most, c, by simp [hend], ?_⟩
      by_contra hblank
      exact hfrayed (.trimmed hscan hlast (List.append_assoc ..) (by simpa using hmem)
        (by rw [hend, List.getLast?_concat]) (by simpa using hblank))
  have hfound : Text.contains first.text.toList (front ++ tail) = true := by
    rw [hbody] at hstrewn ⊢
    cases hstrewn with
    | cons hgap _ _ =>
      rw [Text.contains, List.append_assoc, List.append_assoc ('@' :: body),
        Text.cut?_append_cons hgap]
      rfl
  rw [removeStatement, if_pos hfound, hbody]
  rw [hbody] at hstrewn
  simpa [Function.comp_def] using Keeps.ready ⟨hstrewn, htail⟩ hfirm

/-- Replacing statements that are ready leaves no at sign, as long as the texts that are put in their
places bring none. -/
theorem Ready.not_mem_of_replaceStatements {f : String → Flattening} {statements : List Statement}
    {s out : List Char}
    (h : Ready (statements.map fun statement => Text.dropLineBreaks statement.text.toList) s)
    (hmarks : ∀ statement ∈ statements, ∃ body, statement.text.toList = '@' :: body ∧ '@' ∉ body)
    (hfree : ∀ statement ∈ statements, (∃ c ∈ statement.text.toList, Text.isLineBreak c = true) →
      ∀ last, statements.getLast? = some last → ¬ Text.dropLineBreaks last.text.toList <+:
        statement.text.toList.takeWhile fun c => !Text.isLineBreak c)
    (hf : ∀ statement ∈ statements, ∀ text, (f statement.target).result = .ok text → '@' ∉ text)
    (hout : (replaceStatements f statements s).result = .ok out) : '@' ∉ out := by
  induction statements generalizing s with
  | nil =>
    obtain rfl : s = out := Except.ok.inj hout
    cases h with
    | done h => exact h
    | more hne => exact absurd rfl hne
  | cons statement rest ih =>
    cases hresult : (f statement.target).result with
    | error failure =>
      rw [replaceStatements_of_error hresult] at hout
      cases hout
    | ok text =>
      rw [replaceStatements_of_ok hresult] at hout
      have hlast {last : Statement} (hlast : rest.getLast? = some last) :
          (statement :: rest).getLast? = some last := by
        rw [List.getLast?_cons, hlast]
        rfl
      have hremoved := h.removeStatement (hmarks statement (List.mem_cons_self ..))
        (by simp [Function.comp_def, Text.dropLineBreaks_dropLineBreaks])
        fun hbroken dropped hdropped => by
          rw [List.getLast?_map, Option.map_eq_some_iff] at hdropped
          obtain ⟨last, hrest, rfl⟩ := hdropped
          exact hfree statement (List.mem_cons_self ..) hbroken last (hlast hrest)
      refine ih (hremoved.append (hf statement (List.mem_cons_self ..) text hresult))
        (fun other hother => hmarks other (List.mem_cons_of_mem _ hother))
        (fun other hother hbroken last hrest =>
          hfree other (List.mem_cons_of_mem _ hother) hbroken last (hlast hrest))
        (fun other hother => hf other (List.mem_cons_of_mem _ hother)) hout

/-- Replacing the statements of a text with marks that is not frayed leaves no at sign. -/
theorem IsMarked.not_mem_of_replaceStatements {f : String → Flattening} {s out : List Char}
    (h : IsMarked s) (hfrayed : ¬ IsFrayed s)
    (hf : ∀ statement ∈ scan s, ∀ text, (f statement.target).result = .ok text → '@' ∉ text)
    (hout : (replaceStatements f (scan s) s).result = .ok out) : '@' ∉ out := by
  cases hscan : scan s with
  | nil =>
    rw [hscan] at hout
    obtain rfl : s = out := Except.ok.inj hout
    obtain ⟨front, tail, rfl, hstrewn, htail⟩ := h.exists_strewn
    rw [hscan] at hstrewn
    cases hstrewn
    exact htail
  | cons first rest =>
    rw [hscan] at hout hf
    cases hresult : (f first.target).result with
    | error failure =>
      rw [replaceStatements_of_error hresult] at hout
      cases hout
    | ok text =>
      rw [replaceStatements_of_ok hresult] at hout
      have hready := (h.ready hfrayed hscan).append (hf first (List.mem_cons_self ..) text hresult)
      refine hready.not_mem_of_replaceStatements
        (fun statement hstatement => ?_) (fun statement hstatement hbroken last hlast hstarts => ?_)
        (fun statement hstatement => hf statement (List.mem_cons_of_mem _ hstatement)) hout
      · obtain ⟨front, tail, -, hstrewn, -⟩ := h.exists_strewn
        refine hstrewn.exists_body_of_mem (List.mem_map_of_mem ?_)
        rw [hscan]
        exact List.mem_cons_of_mem _ hstatement
      · exact hfrayed (.shadowed hscan hlast hstatement hbroken hstarts)

variable {d : Disk} {root extension entry : String}

/-- Flattening leaves no at sign, and thus nothing of a statement, where at signs stand at the starts
of statements only and no text that is reached is frayed. -/
theorem not_mem_flattened
    (hmarked : ∀ path, Relation.ReflTransGen (Reads d root extension) entry path →
      ∀ text, sourceText d extension path = .ok text → IsMarked text.toList)
    (hfrayed : ∀ path, Relation.ReflTransGen (Reads d root extension) entry path →
      ∀ text, sourceText d extension path = .ok text → ¬ IsFrayed text.toList)
    {depth : ℕ} {out : List Char}
    (hout : (flattenWithin d root extension depth entry).result = .ok out) :
    '@' ∉ out := by
  induction depth generalizing entry out with
  | zero => cases hout
  | succ depth ih =>
    cases htext : sourceText d extension entry with
    | error failure =>
      rw [flattenWithin_of_error htext] at hout
      cases hout
    | ok text =>
      rw [flattenWithin_of_ok htext] at hout
      refine (hmarked entry .refl text htext).not_mem_of_replaceStatements
        (hfrayed entry .refl text htext) (fun statement hstatement inlined hinlined => ?_) hout
      have hreads : Reads d root extension entry
          (targetPath root extension entry statement.target) :=
        ⟨text, htext, statement, hstatement, rfl⟩
      exact ih (fun path hpath => hmarked path (hpath.head hreads))
        (fun path hpath => hfrayed path (hpath.head hreads)) hinlined

/-! ## Two imports of a neighbour -/

namespace ReadsPair

variable {text first second path : String}

/-- What becomes of a stylesheet that imports its neighbour twice. -/
theorem result_eq (h : ReadsPair text)
    (hstatements : statements text = [⟨first, "a"⟩, ⟨second, "a"⟩]) :
    (flattenWithin (pairDisk text) "/s" ".scss" 2 "/s/main.scss").result =
      .ok (removeStatement second.toList (removeStatement first.toList text.toList ++
        ".a \x7b\x7d".toList) ++ ".a \x7b\x7d".toList) := by
  have hneighbour : targetPath "/s" ".scss" "/s/main.scss" "a" = "/s/a.scss" := by decide +kernel
  have hnone : statements ".a \x7b\x7d" = [] := scan_eq_nil_of_not_mem (by decide)
  have hinlined : (flattenWithin (pairDisk text) "/s" ".scss" 1
      (targetPath "/s" ".scss" "/s/main.scss" "a")).result = .ok ".a \x7b\x7d".toList := by
    rw [hneighbour, flattenWithin_of_ok h.neighbour, hnone]
    rfl
  rw [flattenWithin_of_ok h.main, hstatements, replaceStatements_of_ok hinlined,
    replaceStatements_of_ok hinlined]
  rfl

/-- Where the stylesheet's statements are marked, so are all that are reached. -/
theorem isMarked_of_reaches (h : ReadsPair text)
    (hstatements : statements text = [⟨first, "a"⟩, ⟨second, "a"⟩]) (hmarked : IsMarked text.toList)
    (hreach : Relation.ReflTransGen (Reads (pairDisk text) "/s" ".scss") "/s/main.scss" path)
    {source : String} (hsource : sourceText (pairDisk text) ".scss" path = .ok source) :
    IsMarked source.toList := by
  rcases h.eq_or_eq_of_reaches hstatements hreach with rfl | rfl
  · obtain rfl := Except.ok.inj (h.main.symm.trans hsource)
    exact hmarked
  · obtain rfl := Except.ok.inj (h.neighbour.symm.trans hsource)
    exact .of_not_mem (by decide)

end ReadsPair

/-- A stylesheet whose statements end with a blank, span lines and lack semicolons. -/
def spanningText : String := "@import 'a' \n@import\n'a'\n"

/-- A stylesheet that ends with a blank, which belongs to its last statement. -/
def looseText : String := "@import 'a'\n@import 'a' "

theorem readsPair_spanningText : ReadsPair spanningText :=
  ⟨sourceText_of_readBytes (by decide +kernel) (by decide),
    sourceText_of_readBytes (by decide +kernel) (by decide)⟩

theorem readsPair_looseText : ReadsPair looseText :=
  ⟨sourceText_of_readBytes (by decide +kernel) (by decide),
    sourceText_of_readBytes (by decide +kernel) (by decide)⟩

theorem parse?_spanning_first : parse? ('@' :: "import 'a' ".toList ++
    ('\n' :: ('@' :: "import\n'a'".toList ++ ['\n']))) =
      some ("a".toList, '\n' :: ('@' :: "import\n'a'".toList ++ ['\n'])) := by decide

theorem parse?_spanning_second : parse? ('@' :: "import\n'a'".toList ++ ['\n']) =
    some ("a".toList, ['\n']) := by decide

theorem statements_spanningText : statements spanningText =
    [⟨"@import 'a' ", "a"⟩, ⟨"@import\n'a'", "a"⟩] := by
  refine (scan_append_of_parse?_eq_some parse?_spanning_first).trans ?_
  rw [scan_cons_of_parse?_eq_none (by decide), scan_append_of_parse?_eq_some parse?_spanning_second,
    scan_eq_nil_of_not_mem (by decide)]
  decide

theorem isMarked_spanningText : IsMarked spanningText.toList where
  own := by
    have hown : ownText spanningText.toList = "\n\n".toList := by
      refine (ownText_of_parse?_eq_some parse?_spanning_first).trans ?_
      rw [ownText_cons_of_parse?_eq_none (by decide),
        ownText_of_parse?_eq_some parse?_spanning_second, ownText_eq_self_of_not_mem (by decide)]
      decide
    rw [hown]
    decide
  inside := by
    rw [← statements, statements_spanningText]
    decide

theorem not_isFrayed_spanningText : ¬ IsFrayed spanningText.toList := by
  have hrest {first last : Statement} {rest : List Statement}
      (hscan : scan spanningText.toList = first :: rest) (hlast : rest.getLast? = some last) :
      rest = [⟨"@import\n'a'", "a"⟩] ∧ last = ⟨"@import\n'a'", "a"⟩ := by
    rw [← statements, statements_spanningText] at hscan
    obtain ⟨-, rfl⟩ := List.cons.inj hscan
    exact ⟨rfl, (Option.some.inj hlast).symm⟩
  intro hfrayed
  cases hfrayed with
  | trimmed hscan hlast _ _ hend hblank =>
    obtain ⟨-, rfl⟩ := hrest hscan hlast
    obtain rfl := Option.some.inj (hend.symm.trans (by decide : _ = some '\''))
    exact absurd hblank (by decide)
  | shadowed hscan hlast hmem _ hstarts =>
    obtain ⟨rfl, rfl⟩ := hrest hscan hlast
    obtain rfl := List.mem_singleton.1 hmem
    exact absurd hstarts (by decide)

/-- Of statements that span lines and lack semicolons nothing is left. -/
theorem not_mem_flattened_spanningText : IsMarked spanningText.toList ∧
    ¬ IsFrayed spanningText.toList ∧ ∃ out,
      (flattenWithin (pairDisk spanningText) "/s" ".scss" 2 "/s/main.scss").result = .ok out ∧
        '@' ∉ out := by
  have hpair := readsPair_spanningText
  have hout := hpair.result_eq statements_spanningText
  refine ⟨isMarked_spanningText, not_isFrayed_spanningText, _, hout,
    not_mem_flattened (fun path hpath source hsource => ?_) (fun path hpath source hsource => ?_) hout⟩
  · exact hpair.isMarked_of_reaches statements_spanningText isMarked_spanningText hpath hsource
  · rcases hpair.eq_or_eq_of_reaches statements_spanningText hpath with rfl | rfl
    · obtain rfl := Except.ok.inj (hpair.main.symm.trans hsource)
      exact not_isFrayed_spanningText
    · obtain rfl := Except.ok.inj (hpair.neighbour.symm.trans hsource)
      exact not_isFrayed_of_not_mem (by decide)

theorem parse?_loose_first : parse? ('@' :: "import 'a'".toList ++
    ('\n' :: ('@' :: "import 'a' ".toList ++ []))) =
      some ("a".toList, '\n' :: ('@' :: "import 'a' ".toList ++ [])) := by decide

theorem parse?_loose_second : parse? ('@' :: "import 'a' ".toList ++ []) =
    some ("a".toList, []) := by decide

theorem statements_looseText : statements looseText =
    [⟨"@import 'a'", "a"⟩, ⟨"@import 'a' ", "a"⟩] := by
  refine (scan_append_of_parse?_eq_some parse?_loose_first).trans ?_
  rw [scan_cons_of_parse?_eq_none (by decide), scan_append_of_parse?_eq_some parse?_loose_second,
    scan_eq_nil_of_not_mem (by simp)]
  decide

theorem isMarked_looseText : IsMarked looseText.toList where
  own := by
    have hown : ownText looseText.toList = "\n".toList := by
      refine (ownText_of_parse?_eq_some parse?_loose_first).trans ?_
      rw [ownText_cons_of_parse?_eq_none (by decide),
        ownText_of_parse?_eq_some parse?_loose_second, ownText_eq_self_of_not_mem (by simp)]
      decide
    rw [hown]
    decide
  inside := by
    rw [← statements, statements_looseText]
    decide

/-- A last statement that ends with a blank stays where it is, and its target is put behind it. -/
theorem mem_flattened_looseText :
    Acc (Function.swap (Reads (pairDisk looseText) "/s" ".scss")) "/s/main.scss" ∧
      (∀ path, Relation.ReflTransGen (Reads (pairDisk looseText) "/s" ".scss") "/s/main.scss" path →
        ∀ text, sourceText (pairDisk looseText) ".scss" path = .ok text → IsMarked text.toList) ∧
      ∃ run, Ends (pairDisk looseText) "/s" ".scss" "/s/main.scss" run ∧
        run.result = .ok "@import 'a'.a \x7b\x7d.a \x7b\x7d".toList := by
  have hpair := readsPair_looseText
  have hout : (flattenWithin (pairDisk looseText) "/s" ".scss" 2 "/s/main.scss").result =
      .ok "@import 'a'.a \x7b\x7d.a \x7b\x7d".toList := by
    rw [hpair.result_eq statements_looseText]
    decide +kernel
  exact ⟨acc_of_flattenWithin hout,
    fun path hpath text htext =>
      hpair.isMarked_of_reaches statements_looseText isMarked_looseText hpath htext,
    _, ⟨2, rfl, by simp [hout]⟩, hout⟩

end Import

end StyleBundle
