import StyleBundle.Proofs.Json.Grammar

/-!
# What a text writes is read

The reader finds the value that a text writes, if no integer has more digits than are converted and
there is room for the levels. It stops behind a value where something follows that ends it, so items
and members are found one after another. The fuel of the reader is the length of the whole text, and
each item and each member takes some of it. So a plain value is read back from what is printed.
-/

namespace StyleBundle.Json

variable {τ : Type} {longest levels : ℕ} {room : Option ℕ}

/-! ## Blanks and openers -/

/-- Blanks in front are skipped. -/
theorem IsBlank.skipSpace_append {blank : List Char} (h : IsBlank blank) (s : List Char) :
    Reader.skipSpace (blank ++ s) = Reader.skipSpace s :=
  List.dropWhile_append_of_pos h

theorem skipSpace_of_isSpace_eq_false {c : Char} (h : Reader.isSpace c = false) (s : List Char) :
    Reader.skipSpace (c :: s) = c :: s := by
  simp [Reader.skipSpace, h]

/-- Blanks are skipped up to what is none. -/
theorem IsBlank.skipSpace_append_cons {blank : List Char} (h : IsBlank blank) {c : Char}
    (hc : Reader.isSpace c = false) (s : List Char) :
    Reader.skipSpace (blank ++ c :: s) = c :: s := by
  rw [h.skipSpace_append, skipSpace_of_isSpace_eq_false hc]

/-- A value ends before blanks with a closer behind them. -/
theorem IsBlank.endsValue_append {blank : List Char} (h : IsBlank blank) {c : Char}
    (hc : c ∈ closers) (rest : List Char) : EndsValue (blank ++ c :: rest) := by
  cases blank with
  | nil => exact endsValue_cons hc rest
  | cons d blank =>
    refine endsValue_cons ?_ _
    have hd := h d (List.mem_cons_self ..)
    simp only [Reader.isSpace, Bool.or_eq_true, decide_eq_true_eq] at hd
    obtain ((rfl | rfl) | rfl) | rfl := hd <;> decide

/-- A value ends before blanks. -/
theorem IsBlank.endsValue {blank : List Char} (h : IsBlank blank) : EndsValue blank := by
  cases blank with
  | nil => exact endsValue_nil
  | cons d blank =>
    refine endsValue_cons ?_ _
    have hd := h d (List.mem_cons_self ..)
    simp only [Reader.isSpace, Bool.or_eq_true, decide_eq_true_eq] at hd
    obtain ((rfl | rfl) | rfl) | rfl := hd <;> decide

/-- The characters with which a value starts. -/
def isOpener (c : Char) : Bool := c ∈ ['"', '[', '\x7b', 'n', 't', 'f', '-'] || c.isDigit

/-- What starts a value is no blank. -/
theorem isSpace_of_isOpener {c : Char} (h : isOpener c = true) : Reader.isSpace c = false := by
  refine Bool.eq_false_iff.2 fun hspace => ?_
  simp only [Reader.isSpace, Bool.or_eq_true, decide_eq_true_eq] at hspace
  obtain ((rfl | rfl) | rfl) | rfl := hspace <;> exact absurd h (by decide)

theorem ne_of_isDigit {c d : Char} (hc : c.isDigit = true) (hd : d.isDigit = false) : d ≠ c := by
  rintro rfl
  exact absurd hc (by simp [hd])

/-- A number starts with a digit. -/
theorem IsWhole.exists_eq_cons {digits : List Char} (h : IsWhole digits) :
    ∃ c s, c.isDigit = true ∧ digits = c :: s := by
  obtain ⟨c, s, rfl⟩ := List.exists_cons_of_ne_nil h.ne_nil
  exact ⟨c, s, h.isDigit c (List.mem_cons_self ..), rfl⟩

/-- There is room one level deeper. -/
theorem exists_enter?_of_within (h : Within room (levels + 1)) :
    ∃ inner, Reader.enter? room = some inner ∧ Within inner levels := by
  cases room with
  | none => exact ⟨none, rfl, nofun⟩
  | some most =>
    have hmost := h most rfl
    obtain ⟨most, rfl⟩ := Nat.exists_eq_succ_of_ne_zero (by omega : most ≠ 0)
    refine ⟨some most, rfl, fun bound hbound => ?_⟩
    obtain rfl : most = bound := Option.some.inj hbound
    omega

variable [HasSigns τ]

/-- Behind the blanks in front of a member comes its name. -/
theorem Member.IsNamed.skipSpace_chars_append {member : Member τ} (h : member.IsNamed)
    (behind : List Char) : Reader.skipSpace (member.chars ++ behind) =
      '"' :: (member.quoted ++ '"' :: (member.gap ++ ':' :: (member.item.chars ++ behind))) := by
  rw [Member.chars]
  simpa using h.front.skipSpace_append_cons (c := '"') (by decide)
    (member.quoted ++ '"' :: (member.gap ++ ':' :: (member.item.chars ++ behind)))

variable [DecidableEq τ]

/-! ## What the reader finds -/

/-- The reader finds a value in its text, with fuel for every character, and stops behind it. -/
structure IsFound (room : Option ℕ) (s : List Char) (v : Json τ) : Prop where
  /-- The text starts in a way that tells it from blanks and closing brackets. -/
  opened : ∃ c more, isOpener c = true ∧ s = c :: more
  /-- The reader finds the value and stops behind it. -/
  value : ∀ fuel, s.length ≤ fuel → ∀ rest, EndsValue rest →
    Reader.value fuel room (s ++ rest) = .ok (v, rest)

/-- What is found with fuel for the first step and the rest of the text is found. -/
theorem isFound_of_succ {c : Char} {s : List Char} {v : Json τ} (hc : isOpener c = true)
    (h : ∀ fuel, s.length ≤ fuel → ∀ rest, EndsValue rest →
      Reader.value (fuel + 1) room (c :: (s ++ rest)) = .ok (v, rest)) :
    IsFound room (c :: s) v where
  opened := ⟨c, s, hc, rfl⟩
  value fuel hfuel rest hrest := by
    rw [List.length_cons] at hfuel
    obtain ⟨fuel, rfl⟩ := Nat.exists_eq_succ_of_ne_zero (by omega : fuel ≠ 0)
    exact h fuel (by omega) rest hrest

/-- A word is found. -/
theorem isFound_word {c : Char} {s : List Char} {v : Json τ} (hc : c ∈ ['n', 't', 'f'])
    (hword : ∀ rest, Reader.word? (c :: (s ++ rest)) = some (v, rest)) :
    IsFound room (c :: s) v := by
  simp only [List.mem_cons, List.not_mem_nil, or_false] at hc
  refine isFound_of_succ ?_ fun fuel _ rest _ => ?_
  · obtain rfl | rfl | rfl := hc <;> rfl
  · rw [Reader.value]
    obtain rfl | rfl | rfl := hc <;> simp [hword]

/-- A quoted text is found. -/
theorem isFound_str {s : List Char} {t : τ} (h : IsQuoted s (HasSigns.signs t)) :
    IsFound room ('"' :: (s ++ ['"'])) (.str t) :=
  isFound_of_succ rfl fun fuel _ rest _ => by
    have htext := h.text_append rest
    rw [List.append_assoc, List.singleton_append, Reader.value]
    simp only [if_true, htext, bind, Except.bind, pure, Except.pure]

/-- A row of digits is taken as a number. -/
theorem IsWhole.value_append {digits : List Char} (h : IsWhole digits) (fuel : ℕ)
    (rest : List Char) : (Reader.value (fuel + 1) room (digits ++ rest) :
      Except Fault (Json τ × List Char)) =
      Reader.number (digits ++ rest).length false (digits ++ rest) := by
  obtain ⟨c, s, hc, rfl⟩ := h.exists_eq_cons
  have hne (d : Char) (hd : d.isDigit = false) : d ≠ c := ne_of_isDigit hc hd
  have hword : (Reader.word? (c :: (s ++ rest)) : Option (Json τ × List Char)) = none := by
    simp [Reader.word?, Reader.words, Text.dropFront?, hne 'n' rfl, hne 't' rfl, hne 'f' rfl,
      hne 'N' rfl, hne 'I' rfl, hne '-' rfl]
  rw [List.cons_append]
  simp only [Reader.value, if_neg (hne '"' rfl).symm, if_neg (hne '\x7b' rfl).symm,
    if_neg (hne '[' rfl).symm, hword, if_neg (hne '-' rfl).symm, List.length_cons]

/-- A row of digits behind a minus sign is taken as a negative number. -/
theorem IsWhole.value_minus_append {digits : List Char} (h : IsWhole digits) (fuel : ℕ)
    (rest : List Char) : (Reader.value (fuel + 1) room ('-' :: (digits ++ rest)) :
      Except Fault (Json τ × List Char)) =
      Reader.number ((digits ++ rest).length + 1) true (digits ++ rest) := by
  obtain ⟨c, s, hc, rfl⟩ := h.exists_eq_cons
  have hinfinity : 'I' ≠ c := ne_of_isDigit hc rfl
  have hword : (Reader.word? ('-' :: c :: (s ++ rest)) : Option (Json τ × List Char)) = none := by
    simp [Reader.word?, Reader.words, Text.dropFront?, hinfinity]
  rw [List.cons_append, Reader.value, if_neg (by decide), if_neg (by decide), if_neg (by decide)]
  simp only [hword, if_true]

/-- Behind the blanks in front of an item comes its text. -/
theorem Item.skipSpace_chars_append {item : Item τ} (hspaced : item.IsSpaced)
    (hfound : IsFound room item.text item.value) (behind : List Char) :
    Reader.skipSpace (item.chars ++ behind) = item.text ++ (item.back ++ behind) := by
  obtain ⟨c, s, hc, htext⟩ := hfound.opened
  rw [Item.chars, htext]
  simpa using hspaced.1.skipSpace_append_cons (isSpace_of_isOpener hc) (s ++ item.back ++ behind)

/-- Items are found one after another. -/
theorem items_append {items : List (Item τ)} (hne : items ≠ [])
    (hspaced : ∀ item ∈ items, item.IsSpaced)
    (hfound : ∀ item ∈ items, IsFound room item.text item.value) (fuel : ℕ)
    (hfuel : (row (items.map Item.chars)).length < fuel) (rest : List Char) :
    Reader.items fuel room (Reader.skipSpace (row (items.map Item.chars) ++ ']' :: rest)) =
      .ok (items.map Item.value, rest) := by
  induction items generalizing fuel with
  | nil => exact absurd rfl hne
  | cons item more ih =>
    obtain ⟨fuel, rfl⟩ := Nat.exists_eq_succ_of_ne_zero (by omega : fuel ≠ 0)
    obtain ⟨hitem, hmore⟩ := List.forall_mem_cons.1 hspaced
    obtain ⟨hhere, hrest⟩ := List.forall_mem_cons.1 hfound
    have hskip := Item.skipSpace_chars_append hitem hhere
    have hlength : item.text.length ≤ item.chars.length := by
      simp only [Item.chars, List.length_append]
      omega
    cases more with
    | nil =>
      rw [row_map_singleton] at hfuel ⊢
      have hfirst := hhere.value fuel (by omega) (item.back ++ ']' :: rest)
        (hitem.2.endsValue_append (by decide) rest)
      have hend := hitem.2.skipSpace_append_cons (c := ']') (by decide) rest
      simp only [hskip, Reader.items, hfirst, hend, bind, Except.bind, pure, Except.pure]
      rfl
    | cons next more =>
      rw [row_map_cons_cons, List.length_append, List.length_cons] at hfuel
      have hfirst := hhere.value fuel (by omega)
        (item.back ++ ',' :: (row ((next :: more).map Item.chars) ++ ']' :: rest))
        (hitem.2.endsValue_append (by decide) _)
      have hcomma := hitem.2.skipSpace_append_cons (c := ',') (by decide)
        (row ((next :: more).map Item.chars) ++ ']' :: rest)
      have hitems := ih (List.cons_ne_nil _ _) hmore hrest fuel (by omega)
      rw [row_map_cons_cons, List.append_assoc, List.cons_append, hskip]
      simp only [Reader.items, hfirst, hcomma, hitems, bind, Except.bind, pure, Except.pure]
      rfl

/-- Members are found one after another. -/
theorem members_append {members : List (Member τ)} (hne : members ≠ [])
    (hnamed : ∀ member ∈ members, member.IsNamed)
    (hfound : ∀ member ∈ members, IsFound room member.item.text member.item.value) (fuel : ℕ)
    (hfuel : (row (members.map Member.chars)).length < fuel) (rest : List Char) :
    Reader.members fuel room (Reader.skipSpace (row (members.map Member.chars) ++ '\x7d' :: rest)) =
      .ok (members.map Member.entry, rest) := by
  induction members generalizing fuel with
  | nil => exact absurd rfl hne
  | cons member more ih =>
    obtain ⟨fuel, rfl⟩ := Nat.exists_eq_succ_of_ne_zero (by omega : fuel ≠ 0)
    obtain ⟨hmember, hmore⟩ := List.forall_mem_cons.1 hnamed
    obtain ⟨hhere, hrest⟩ := List.forall_mem_cons.1 hfound
    have hskip := hmember.skipSpace_chars_append
    have hname (behind : List Char) := hmember.quoted.text_append
      (member.gap ++ ':' :: (member.item.chars ++ behind))
    have hcolon (behind : List Char) := hmember.gap.skipSpace_append_cons (c := ':') (by decide)
      (member.item.chars ++ behind)
    have hitem := Item.skipSpace_chars_append hmember.item hhere
    have hlength : member.item.text.length ≤ member.chars.length := by
      simp only [Member.chars, Item.chars, List.length_append, List.length_cons]
      omega
    cases more with
    | nil =>
      rw [row_map_singleton] at hfuel ⊢
      have hfirst := hhere.value fuel (by omega) (member.item.back ++ '\x7d' :: rest)
        (hmember.item.2.endsValue_append (by decide) rest)
      have hend := hmember.item.2.skipSpace_append_cons (c := '\x7d') (by decide) rest
      simp only [hskip, Reader.members, hname, hcolon, hitem, hfirst, hend, bind, Except.bind, pure,
        Except.pure]
      rfl
    | cons next more =>
      rw [row_map_cons_cons, List.length_append, List.length_cons] at hfuel
      have hfirst := hhere.value fuel (by omega)
        (member.item.back ++ ',' :: (row ((next :: more).map Member.chars) ++ '\x7d' :: rest))
        (hmember.item.2.endsValue_append (by decide) _)
      have hcomma := hmember.item.2.skipSpace_append_cons (c := ',') (by decide)
        (row ((next :: more).map Member.chars) ++ '\x7d' :: rest)
      have hmembers := ih (List.cons_ne_nil _ _) hmore hrest fuel (by omega)
      rw [row_map_cons_cons, List.append_assoc, List.cons_append, hskip]
      simp only [Reader.members, hname, hcolon, hitem, hfirst, hcomma, hmembers, bind, Except.bind,
        pure, Except.pure]
      rfl

/-- A row of parts starts behind its blanks with what its first part starts with. -/
theorem exists_skipSpace_row {α : Type} {chars : α → List Char} {parts : List α} (hne : parts ≠ [])
    {p : Char → Prop}
    (h : ∀ part ∈ parts, ∀ behind,
      ∃ c more, p c ∧ Reader.skipSpace (chars part ++ behind) = c :: more)
    (behind : List Char) :
    ∃ c more, p c ∧ Reader.skipSpace (row (parts.map chars) ++ behind) = c :: more := by
  obtain ⟨part, parts, rfl⟩ := List.exists_cons_of_ne_nil hne
  have hpart := h part (List.mem_cons_self ..)
  cases parts with
  | nil =>
    rw [row_map_singleton]
    exact hpart behind
  | cons next parts =>
    rw [row_map_cons_cons, List.append_assoc]
    exact hpart _

/-- A list of items that are found is found. -/
theorem isFound_arr {items : List (Item τ)} (hne : items ≠ [])
    (hspaced : ∀ item ∈ items, item.IsSpaced) {inner : Option ℕ}
    (hinner : Reader.enter? room = some inner)
    (hfound : ∀ item ∈ items, IsFound inner item.text item.value) :
    IsFound room ('[' :: (row (items.map Item.chars) ++ [']'])) (.arr (items.map Item.value)) := by
  refine isFound_of_succ rfl fun fuel hfuel rest _ => ?_
  rw [List.length_append, List.length_singleton] at hfuel
  have hitems := items_append hne hspaced hfound fuel (by omega) rest
  obtain ⟨c, more, hc, hmore⟩ := exists_skipSpace_row (p := (isOpener · = true)) hne
    (fun item hitem behind => by
      obtain ⟨c, s, hc, htext⟩ := (hfound item hitem).opened
      rw [Item.skipSpace_chars_append (hspaced item hitem) (hfound item hitem), htext]
      exact ⟨c, _, hc, rfl⟩) (']' :: rest)
  have hbracket : c ≠ ']' := by
    rintro rfl
    exact absurd hc (by decide)
  rw [hmore] at hitems
  rw [List.append_assoc, List.singleton_append, Reader.value]
  simp [hinner, hmore, hbracket, hitems, bind, Except.bind, pure, Except.pure]

/-- An object of members that are found is found. -/
theorem isFound_obj {members : List (Member τ)} (hne : members ≠ [])
    (hnamed : ∀ member ∈ members, member.IsNamed) {inner : Option ℕ}
    (hinner : Reader.enter? room = some inner)
    (hfound : ∀ member ∈ members, IsFound inner member.item.text member.item.value) :
    IsFound room ('\x7b' :: (row (members.map Member.chars) ++ ['\x7d']))
      (.obj (Table.ofList (members.map Member.entry))) := by
  refine isFound_of_succ rfl fun fuel hfuel rest _ => ?_
  rw [List.length_append, List.length_singleton] at hfuel
  have hmembers := members_append hne hnamed hfound fuel (by omega) rest
  obtain ⟨c, more, rfl, hmore⟩ := exists_skipSpace_row (p := (· = '"')) hne
    (fun member hmember behind => ⟨'"', _, rfl, (hnamed member hmember).skipSpace_chars_append _⟩)
    ('\x7d' :: rest)
  rw [hmore] at hmembers
  rw [List.append_assoc, List.singleton_append, Reader.value]
  simp [hinner, hmore, hmembers, bind, Except.bind, pure, Except.pure]

/-- What a text writes is found in it. -/
theorem Writes.isFound {s : List Char} {v : Json τ} (h : Writes longest levels s v)
    (hlongest : longest ≤ maxDigits) (hroom : Within room levels) : IsFound room s v := by
  induction h generalizing room with
  | null =>
    exact isFound_word (c := 'n') (s := ['u', 'l', 'l']) (by decide) fun rest => by
      simp [Reader.word?, Reader.words, Text.dropFront?]
  | true =>
    exact isFound_word (c := 't') (s := ['r', 'u', 'e']) (by decide) fun rest => by
      simp [Reader.word?, Reader.words, Text.dropFront?]
  | false =>
    exact isFound_word (c := 'f') (s := ['a', 'l', 's', 'e']) (by decide) fun rest => by
      simp [Reader.word?, Reader.words, Text.dropFront?]
  | int whole short =>
    obtain ⟨c, s, hc, hs⟩ := whole.exists_eq_cons
    rw [hs] at whole short ⊢
    refine isFound_of_succ (by simp [isOpener, hc]) fun fuel _ rest hrest => ?_
    rw [← List.cons_append, whole.value_append,
      whole.number_append hrest _ _ (short.trans hlongest)]
    rfl
  | minus whole short =>
    refine isFound_of_succ rfl fun fuel _ rest hrest => ?_
    rw [whole.value_minus_append, whole.number_append hrest _ _ (short.trans hlongest)]
    rfl
  | str quoted => exact isFound_str quoted
  | @nil _ blank isBlank =>
    obtain ⟨inner, hinner, -⟩ := exists_enter?_of_within hroom
    refine isFound_of_succ rfl fun fuel _ rest _ => ?_
    have hend := isBlank.skipSpace_append_cons (c := ']') (by decide) rest
    rw [List.append_assoc, List.singleton_append, Reader.value]
    simp [hinner, hend]
  | arr ne_nil spaced _ ih =>
    obtain ⟨inner, hinner, hwithin⟩ := exists_enter?_of_within hroom
    exact isFound_arr ne_nil spaced hinner fun item hitem => ih item hitem hwithin
  | @empty _ blank isBlank =>
    obtain ⟨inner, hinner, -⟩ := exists_enter?_of_within hroom
    refine isFound_of_succ rfl fun fuel _ rest _ => ?_
    have hend := isBlank.skipSpace_append_cons (c := '\x7d') (by decide) rest
    rw [List.append_assoc, List.singleton_append, Reader.value]
    simp [hinner, hend]
  | obj ne_nil named _ ih =>
    obtain ⟨inner, hinner, hwithin⟩ := exists_enter?_of_within hroom
    exact isFound_obj ne_nil named hinner fun member hmember => ih member hmember hwithin

/-! ## Whole texts -/

/-- The value that a text writes is read. -/
theorem IsText.readWithin_eq {text : String} {v : Json τ} (h : IsText longest levels text v)
    (hlongest : longest ≤ maxDigits) (hroom : Within room levels) :
    readWithin room text = .ok v := by
  obtain ⟨front, s, back, hfront, hwrites, hback, htext⟩ := h.within
  obtain ⟨⟨c, more, hc, rfl⟩, hvalue⟩ := hwrites.isFound hlongest hroom
  have hskip : Reader.skipSpace text.toList = c :: more ++ back := by
    rw [htext]
    simpa using hfront.skipSpace_append_cons (isSpace_of_isOpener hc) (more ++ back)
  have hfound := hvalue (text.toList.length + 1)
    (by rw [htext]; simp only [List.length_append]; omega) back hback.endsValue
  have hmark : ¬ text.toList.head? = some '\ufeff' := by
    rw [htext]
    cases front with
    | nil =>
      intro hhead
      obtain rfl : c = '\ufeff' := Option.some.inj hhead
      exact absurd hc (by decide)
    | cons d front =>
      intro hhead
      obtain rfl : d = '\ufeff' := Option.some.inj hhead
      exact absurd (hfront _ (List.mem_cons_self ..)) (by decide)
  have hend := hback.skipSpace_append []
  rw [List.append_nil] at hend
  rw [readWithin, readChars, if_neg hmark, hskip, hfound]
  simp only [bind, Except.bind, hend]
  rfl

/-- A plain value is written by its printed text. -/
theorem isText_print {style : Style} (hstyle : style.IsPlain) {v : Json τ}
    (h : IsPlain longest levels v) : IsText longest levels (v.print style) v :=
  ⟨[], _, [], isBlank_nil, writes_encode hstyle h, isBlank_nil, by simp [print]⟩

/-- A plain value is read back from its printed text. -/
theorem readWithin_print {style : Style} (hstyle : style.IsPlain) {v : Json τ}
    (h : IsPlain maxDigits levels v) (hroom : Within room levels) :
    readWithin room (v.print style) = .ok v :=
  (isText_print hstyle h).readWithin_eq le_rfl hroom

/-- What a whole text writes is plain. -/
theorem IsText.isPlain {text : String} {v : Json τ} (h : IsText longest levels text v) :
    IsPlain longest levels v := by
  obtain ⟨_, _, _, _, hwrites, _⟩ := h.within
  exact hwrites.isPlain

end StyleBundle.Json
