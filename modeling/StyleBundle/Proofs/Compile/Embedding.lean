import StyleBundle.Compile.SourceMap
import StyleBundle.Proofs.Text.Base64
import StyleBundle.Proofs.Text.Pattern
import StyleBundle.Proofs.Text.Search
import StyleBundle.Proofs.Text.Utf8

/-!
# Source maps behind compiled text

A comment with a source map is found exactly where one ends the text. There is never more than one
place for it: the two characters that open a comment stand nowhere inside of it, so none that starts
earlier reaches the end. Whatever a text holds, a map that is put behind it is therefore taken off
again.
-/

namespace StyleBundle.SourceMap

/-- The comment that holds data, in its short form or with the encoding given. -/
def comment (encoded : Bool) (data : List Char) : List Char :=
  opening ++ ((if encoded then charset else []) ++ (marker ++ (data ++ closing)))

/-- A text that ends in a comment with a map: what stands before it, and the data of the map. Blanks
may follow. -/
structure Embeds (s before data : List Char) : Prop where
  /-- There is some data. -/
  data_ne : data ≠ []
  /-- It is written in base 64. -/
  isData : ∀ c ∈ data, isData c = true
  /-- The comment ends the text. -/
  split : ∃ encoded blanks, s = before ++ (comment encoded data ++ blanks) ∧
    ∀ c ∈ blanks, Text.isBlank c = true

/-- A comment behind its opening characters. -/
theorem comment_append (encoded : Bool) (data blanks : List Char) :
    comment encoded data ++ blanks = opening ++ ((if encoded then charset else []) ++
      (marker ++ (data ++ (closing ++ blanks)))) := by
  simp only [comment, List.append_assoc]

/-! ## A comment at the front -/

/-- The encoding is passed over where it is given. -/
theorem dropFront?_charset (encoded : Bool) (s : List Char) :
    (Text.dropFront? charset ((if encoded then charset else []) ++ (marker ++ s))).getD
      ((if encoded then charset else []) ++ (marker ++ s)) = marker ++ s := by
  cases encoded with
  | true => rw [if_pos rfl, Text.dropFront?_eq_some_iff.2 rfl, Option.getD_some]
  | false => rfl

/-- A comment at the front is read exactly where nothing but blanks follows it. -/
theorem comment?_eq_some_iff {s data : List Char} : comment? s = some data ↔ Embeds s [] data := by
  unfold comment?
  simp only [Option.bind_eq_bind, Option.bind_eq_some_iff, Text.dropFront?_eq_some_iff]
  constructor
  · rintro ⟨s₁, h₁, s₂, h₂, rest, hrest, h⟩
    split at h
    next hends =>
      obtain rfl := Option.some.inj h
      obtain ⟨hne, hblanks⟩ : s₂.takeWhile isData ≠ [] ∧ ∀ c ∈ rest, Text.isBlank c = true := by
        simpa using hends
      have hsplit : s₂.takeWhile isData ++ (closing ++ rest) = s₂ := by
        rw [← hrest, List.takeWhile_append_dropWhile]
      refine ⟨hne, fun c hc => List.mem_takeWhile_imp hc, ?_⟩
      cases hcharset : Text.dropFront? charset s₁ with
      | none =>
        rw [hcharset, Option.getD_none] at h₂
        exact ⟨false, rest, by rw [comment_append, hsplit, h₁, h₂]; rfl, hblanks⟩
      | some s₃ =>
        rw [hcharset, Option.getD_some] at h₂
        rw [Text.dropFront?_eq_some_iff] at hcharset
        exact ⟨true, rest, by rw [comment_append, hsplit, h₁, hcharset, h₂]; rfl, hblanks⟩
    · cases h
  · rintro ⟨hne, hdata, encoded, blanks, heq, hblanks⟩
    have hrun : Text.IsRun isData data (closing ++ blanks) :=
      ⟨hdata, fun c hc => by obtain rfl : ' ' = c := Option.some.inj hc; rfl⟩
    rw [List.nil_append, comment_append] at heq
    refine ⟨_, heq, data ++ (closing ++ blanks), dropFront?_charset encoded _, blanks,
      hrun.dropWhile_append, ?_⟩
    rw [hrun.takeWhile_append, if_pos]
    simpa [hne] using hblanks

/-! ## The end of a text -/

/-- A comment that ends a text is opened at its start and nowhere inside of it. -/
theorem eq_nil_of_embeds {s data before rest : List Char} (h : Embeds s [] data)
    (heq : s = before ++ '/' :: '*' :: rest) : before = [] := by
  obtain ⟨-, hdata, encoded, blanks, hs, hblanks⟩ := h
  obtain ⟨word, hopening, hword⟩ : ∃ word, opening = '/' :: '*' :: word ∧ '*' ∉ word :=
    ⟨"# sourceMappingURL=data:application/json;".toList, by decide, by decide⟩
  -- Behind its first two characters the comment holds one asterisk, and a blank in front of it.
  let gap := word ++ ((if encoded then charset else []) ++ (marker ++ data)) ++ [' ']
  have hgap : '*' ∉ gap := by
    have hcharset : '*' ∉ if encoded then charset else [] := by cases encoded <;> decide
    have hmarker : '*' ∉ marker := by decide
    have hstar : '*' ∉ data := fun hc => absurd (hdata _ hc) (by decide)
    simp [gap, hword, hcharset, hmarker, hstar]
  have hparts : s = '/' :: '*' :: (gap ++ '*' :: '/' :: blanks) := by
    rw [hs, List.nil_append, comment_append, hopening]
    simp [gap, closing]
  rw [hparts] at heq
  match before, heq with
  | [], _ => rfl
  | [_], heq => simp at heq
  | _ :: _ :: inside, heq =>
    have hinside : gap ++ '*' :: '/' :: blanks = (inside ++ ['/']) ++ '*' :: rest := by
      simpa using (List.cons.inj (List.cons.inj heq).2).2
    rcases Text.eq_or_exists_of_append_cons hgap hinside with ⟨hlast, -⟩ | ⟨more, -, hmore⟩
    · have hchars := congrArg List.getLast? hlast
      simp [gap] at hchars
    · have hstar : '*' ∈ '/' :: blanks := hmore ▸ by simp
      rcases List.mem_cons.1 hstar with hslash | hblank
      · cases hslash
      · exact absurd (hblanks _ hblank) (by decide)

/-- What stands in front of a text makes no difference to the comment at its end. -/
theorem embeds_append_iff {front s before data : List Char} :
    Embeds (front ++ s) (front ++ before) data ↔ Embeds s before data := by
  constructor
  · rintro ⟨hne, hdata, encoded, blanks, heq, hblanks⟩
    rw [List.append_assoc] at heq
    exact ⟨hne, hdata, encoded, blanks, List.append_cancel_left heq, hblanks⟩
  · rintro ⟨hne, hdata, encoded, blanks, rfl, hblanks⟩
    exact ⟨hne, hdata, encoded, blanks, (List.append_assoc ..).symm, hblanks⟩

/-- A comment that ends a text stands at the front of what is left behind it. -/
theorem embeds_nil_of_append {before rest data : List Char}
    (h : Embeds (before ++ rest) before data) : Embeds rest [] data :=
  embeds_append_iff.1 (by rwa [List.append_nil])

theorem Embeds.exists_eq_append {s before data : List Char} (h : Embeds s before data) :
    ∃ rest, s = before ++ '/' :: '*' :: rest := by
  obtain ⟨-, -, encoded, blanks, heq, -⟩ := h
  rw [comment_append] at heq
  exact ⟨_, heq⟩

/-- A text ends in one comment at most. -/
theorem Embeds.unique {s before before' data data' : List Char} (h : Embeds s before data)
    (h' : Embeds s before' data') : before = before' ∧ data = data' := by
  have hfront {front front' d d' : List Char} (h : Embeds s front d) (h' : Embeds s front' d')
      (hlength : front.length ≤ front'.length) : front = front' := by
    obtain ⟨rest, rfl⟩ := h.exists_eq_append
    obtain ⟨rest', heq⟩ := h'.exists_eq_append
    obtain ⟨more, rfl⟩ := List.prefix_of_prefix_length_le ⟨_, rfl⟩ ⟨_, heq.symm⟩ hlength
    rw [List.append_assoc] at heq
    rw [eq_nil_of_embeds (embeds_nil_of_append h) (List.append_cancel_left heq), List.append_nil]
  obtain rfl : before = before' := (Nat.le_total before.length before'.length).elim
    (hfront h h') fun hlength => (hfront h' h hlength).symm
  obtain ⟨rest, rfl⟩ := h.exists_eq_append
  have hdata := comment?_eq_some_iff.2 (embeds_nil_of_append h)
  rw [comment?_eq_some_iff.2 (embeds_nil_of_append h')] at hdata
  exact ⟨rfl, (Option.some.inj hdata).symm⟩

/-- A comment is found exactly where it ends the text. -/
theorem find?_eq_some_iff {s before data : List Char} :
    find? s = some (before, data) ↔ Embeds s before data := by
  induction s generalizing before with
  | nil =>
    refine iff_of_false nofun fun h => ?_
    obtain ⟨rest, hrest⟩ := h.exists_eq_append
    exact List.append_ne_nil_of_right_ne_nil before (List.cons_ne_nil _ _) hrest.symm
  | cons c rest ih =>
    have hlater {front : List Char} :
        Embeds (c :: rest) (c :: front) data ↔ find? rest = some (front, data) := by
      rw [ih]
      exact @embeds_append_iff [c] rest front data
    rw [find?]
    constructor
    · intro h
      split at h
      next found hfound =>
        obtain ⟨rfl, rfl⟩ : [] = before ∧ found = data := by simpa using h
        exact comment?_eq_some_iff.1 hfound
      next hnone =>
        obtain ⟨⟨front, found⟩, hfound, heq⟩ := Option.map_eq_some_iff.1 h
        obtain ⟨rfl, rfl⟩ : c :: front = before ∧ found = data := by simpa using heq
        exact hlater.2 hfound
    · intro h
      cases hfront : comment? (c :: rest) with
      | some found =>
        obtain ⟨rfl, rfl⟩ := h.unique (comment?_eq_some_iff.1 hfront)
        rfl
      | none =>
        cases before with
        | nil =>
          rw [comment?_eq_some_iff.2 h] at hfront
          cases hfront
        | cons d front =>
          obtain ⟨tail, htail⟩ := h.exists_eq_append
          obtain rfl : c = d := (List.cons.inj htail).1
          simp only [hlater.1 h, Option.map_some]

/-- A map is read back from its data. -/
theorem decode_encode (map : String) :
    decode (Text.Base64.encode (Text.Utf8.encode map.toList)) = .ok map := by
  simp only [decode, Text.Base64.decode_encode, Text.Utf8.decode_encode, String.ofList_toList]

/-- The data of a map is no more than digits and padding, and there is some if the map is not
empty. -/
theorem embeds_encode {map : String} (hmap : map ≠ "") (encoded : Bool) (before : List Char)
    {blanks : List Char} (hblanks : ∀ c ∈ blanks, Text.isBlank c = true) :
    Embeds
      (before ++ (comment encoded (Text.Base64.encode (Text.Utf8.encode map.toList)) ++ blanks))
      before (Text.Base64.encode (Text.Utf8.encode map.toList)) := by
  have hbytes : Text.Utf8.encode map.toList ≠ [] := by
    intro hnil
    have hdecode := Text.Utf8.decode_encode map.toList
    rw [hnil, Text.Utf8.decode, Text.Utf8.decodeFrom] at hdecode
    exact hmap (String.toList_eq_nil_iff.1 (Except.ok.inj hdecode).symm)
  refine ⟨Text.Base64.encode_ne_nil hbytes, fun c hc => ?_, encoded, blanks, rfl, hblanks⟩
  simpa [isData] using Text.Base64.value?_or_pad_of_mem_encode hc

/-- The map of the comment that ends a text is taken off with it. -/
theorem takeOff_of_embeds {css : String} {before data : List Char}
    (h : Embeds css.toList before data) : takeOff css = (decode data).map fun map =>
      ⟨String.ofList (Text.trimEnd before) ++ "\n", some map⟩ := by
  have hcss : String.ofList (Text.trimEnd before ++ ['\n']) =
      String.ofList (Text.trimEnd before) ++ "\n" := String.ofList_append
  rw [takeOff, find?_eq_some_iff.2 h]
  simp only [hcss]
  cases decode data <;> rfl

/-- A map that is put behind a text in a comment is taken off again, whatever the text holds. What
is left loses its trailing blanks and ends with a line feed. -/
theorem takeOff_append_comment (css : String) {map blanks : String} (encoded : Bool)
    (hmap : map ≠ "") (hblanks : ∀ c ∈ blanks.toList, Text.isBlank c = true) :
    takeOff (css ++ "/*# sourceMappingURL=data:application/json;" ++
      (if encoded then "charset=utf-8;" else "") ++ "base64," ++
      String.ofList (Text.Base64.encode (Text.Utf8.encode map.toList)) ++ " */" ++ blanks) =
      .ok ⟨String.ofList (Text.trimEnd css.toList) ++ "\n", some map⟩ := by
  have hcharset : (if encoded then "charset=utf-8;" else "").toList =
      if encoded then charset else [] := by cases encoded <;> rfl
  -- The words are variables here, which keeps them from being evaluated.
  have hassoc (a b c d : String) (data : List Char) :
      (css ++ a ++ b ++ c ++ String.ofList data ++ d ++ blanks).toList = css.toList ++
        (a.toList ++ (b.toList ++ (c.toList ++ (data ++ (d.toList ++ blanks.toList))))) := by simp
  have hembeds := embeds_encode hmap encoded css.toList hblanks
  rw [comment_append, ← hcharset] at hembeds
  rw [takeOff_of_embeds ((hassoc _ _ _ _ _).symm ▸ hembeds), decode_encode]
  rfl

/-- A text that ends in a comment itself keeps it. -/
theorem takeOff_append_comment_twice :
    takeOff (".a {} /*# sourceMappingURL=data:application/json;base64,e30= */" ++
      "/*# sourceMappingURL=data:application/json;" ++ "charset=utf-8;" ++ "base64," ++
      String.ofList (Text.Base64.encode (Text.Utf8.encode "\x7b\"sources\":[]\x7d".toList)) ++
      " */" ++ "\n") =
      .ok ⟨".a {} /*# sourceMappingURL=data:application/json;base64,e30= */" ++ "\n",
        some "\x7b\"sources\":[]\x7d"⟩ := by
  have hkept : String.ofList (Text.trimEnd
      ".a {} /*# sourceMappingURL=data:application/json;base64,e30= */".toList) =
      ".a {} /*# sourceMappingURL=data:application/json;base64,e30= */" := by decide
  have h := @takeOff_append_comment
    ".a {} /*# sourceMappingURL=data:application/json;base64,e30= */"
    "\x7b\"sources\":[]\x7d" "\n" true (by decide) (by simp [Text.isBlank])
  rwa [hkept] at h

end StyleBundle.SourceMap
