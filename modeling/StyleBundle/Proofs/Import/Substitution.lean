import Mathlib.Data.List.Perm.Basic
import StyleBundle.Import.Macro
import StyleBundle.Proofs.Text.Occurrence
import StyleBundle.Proofs.Text.Search

/-!
# Independent macros

Each macro replaces the first occurrence of its name in what the earlier ones have left. Where the
names cannot overlap and none of their characters stands in a value, the replacements do not get
into each other's way: all of them are made where the names stand in the url itself, and the order
of the table does not matter.

A url is looked at as a row of pieces, single characters and macros. What a macro puts in is one
piece, so that a later name is found in the pieces exactly where it is found in the url.
-/

namespace StyleBundle.Import

open Text (Apart IsFirst)

/-- Macros that do not get into each other's way. -/
structure Independent (macros : Macros) : Prop where
  /-- A name is not empty. -/
  key_ne : ∀ entry ∈ macros, entry.1 ≠ ""
  /-- A value is not empty. -/
  value_ne : ∀ entry ∈ macros, entry.2 ≠ ""
  /-- No character of a name stands in a value. -/
  not_mem_value : ∀ entry ∈ macros, ∀ other ∈ macros, ∀ c ∈ entry.1.toList, c ∉ other.2.toList
  /-- No two names can overlap. -/
  apart : macros.Pairwise fun entry other => Apart entry.1.toList other.1.toList

/-- The order of the table does not matter. -/
theorem Independent.of_perm {macros ordering : Macros} (h : Independent macros)
    (hperm : ordering.Perm macros) : Independent ordering where
  key_ne entry hentry := h.key_ne entry (hperm.subset hentry)
  value_ne entry hentry := h.value_ne entry (hperm.subset hentry)
  not_mem_value entry hentry other hother :=
    h.not_mem_value entry (hperm.subset hentry) other (hperm.subset hother)
  apart := (hperm.pairwise_iff fun happart => happart.symm).2 h.apart

/-- The first macros of a table are independent if all are. -/
theorem Independent.of_append {macros more : Macros} (h : Independent (macros ++ more)) :
    Independent macros where
  key_ne entry hentry := h.key_ne entry (List.mem_append_left _ hentry)
  value_ne entry hentry := h.value_ne entry (List.mem_append_left _ hentry)
  not_mem_value entry hentry other hother :=
    h.not_mem_value entry (List.mem_append_left _ hentry) other (List.mem_append_left _ hother)
  apart := (List.pairwise_append.1 h.apart).1

/-! ## Pieces -/

/-- A piece of a url. -/
inductive Piece
  /-- A character that stays. -/
  | kept (c : Char)
  /-- A macro that is replaced. -/
  | replaced (macroEntry : String × String)

/-- What a piece writes, when macros are read by their names or by their values. -/
def Piece.text (reading : String × String → String) : Piece → List Char
  | .kept c => [c]
  | .replaced macroEntry => (reading macroEntry).toList

/-- What pieces write one after another. -/
def textOf (reading : String × String → String) (pieces : List Piece) : List Char :=
  pieces.flatMap (Piece.text reading)

variable {reading : String × String → String} {pieces front behind : List Piece}
  {key before rest : List Char}

@[simp] theorem textOf_nil : textOf reading [] = [] := rfl

@[simp] theorem textOf_cons (piece : Piece) (pieces : List Piece) :
    textOf reading (piece :: pieces) = piece.text reading ++ textOf reading pieces := rfl

@[simp] theorem textOf_append (front behind : List Piece) :
    textOf reading (front ++ behind) = textOf reading front ++ textOf reading behind :=
  List.flatMap_append

/-- Characters that stay write themselves. -/
@[simp] theorem textOf_map_kept (s : List Char) : textOf reading (s.map .kept) = s := by
  induction s with
  | nil => rfl
  | cons c s ih => simp [ih, Piece.text]

/-- No macro of some pieces is read as the empty text. -/
def Writes (reading : String × String → String) (pieces : List Piece) : Prop :=
  ∀ entry, .replaced entry ∈ pieces → reading entry ≠ ""

theorem Writes.mono {more : List Piece} (h : Writes reading pieces) (hsub : more ⊆ pieces) :
    Writes reading more := fun entry hentry => h entry (hsub hentry)

/-- Pieces that write nothing are none. -/
theorem Writes.eq_nil (h : Writes reading pieces) (hnil : textOf reading pieces = []) :
    pieces = [] := by
  cases pieces with
  | nil => rfl
  | cons piece pieces =>
    obtain ⟨hpiece, -⟩ := List.append_eq_nil_iff.1 hnil
    cases piece with
    | kept c => cases hpiece
    | replaced entry =>
      exact absurd (String.toList_eq_nil_iff.1 hpiece) (h entry (List.mem_cons_self ..))

/-- What stands in front is told by how much it writes. -/
theorem Writes.front_eq (h : Writes reading pieces) {front' behind' : List Piece}
    (hpieces : pieces = front ++ behind) (hpieces' : pieces = front' ++ behind')
    (hlength : (textOf reading front).length = (textOf reading front').length) :
    front = front' := by
  rcases List.append_eq_append_iff.1 (hpieces.symm.trans hpieces') with
    ⟨more, rfl, -⟩ | ⟨more, rfl, -⟩
  · have hmore : textOf reading more = [] := by
      rw [← List.length_eq_zero_iff]
      simpa using hlength.symm
    rw [(h.mono (by simp [hpieces'])).eq_nil hmore, List.append_nil]
  · have hmore : textOf reading more = [] := by
      rw [← List.length_eq_zero_iff]
      simpa using hlength
    rw [(h.mono (by simp [hpieces])).eq_nil hmore, List.append_nil]

/-! ## Where a name stands in the pieces -/

/-- The name cannot overlap what the macros of some pieces write. -/
def Clears (reading : String × String → String) (pieces : List Piece) (key : List Char) : Prop :=
  ∀ entry, .replaced entry ∈ pieces → Apart key (reading entry).toList

theorem Clears.tail {piece : Piece} (h : Clears reading (piece :: pieces) key) :
    Clears reading pieces key := fun entry hentry => h entry (List.mem_cons_of_mem _ hentry)

/-- An end of a name at the start of some pieces is made of characters that stay. -/
theorem Clears.exists_start (h : Clears reading pieces key) {ending : List Char}
    (hending : ending <:+ key) (hstart : textOf reading pieces = ending ++ rest) :
    ∃ behind, pieces = ending.map .kept ++ behind ∧ textOf reading behind = rest := by
  induction ending generalizing pieces with
  | nil => exact ⟨pieces, rfl, hstart⟩
  | cons c ending ih =>
    cases pieces with
    | nil => cases hstart
    | cons piece pieces =>
      cases piece with
      | kept d =>
        obtain ⟨rfl, hrest⟩ := List.cons.inj hstart
        obtain ⟨behind, rfl, hbehind⟩ :=
          ih h.tail ((List.suffix_cons d ending).trans hending) hrest
        exact ⟨behind, rfl, hbehind⟩
      | replaced entry =>
        have happart := h entry (List.mem_cons_self ..)
        -- The text of the macro and the end of the name start at the same place.
        rcases List.append_eq_append_iff.1 hstart with ⟨more, hmore, -⟩ | ⟨more, hmore, -⟩
        · exact absurd (List.IsInfix.trans ⟨[], more, hmore.symm⟩ hending.isInfix)
            happart.not_infix'
        · exact absurd ⟨more, hmore.symm⟩
            (happart.not_prefix (c :: ending) (List.cons_ne_nil c ending) hending)

/-- An occurrence of a name in what pieces write is made of characters that stay. -/
theorem Clears.exists_occurrence (h : Clears reading pieces key) (hkey : key ≠ [])
    (hoccurs : textOf reading pieces = before ++ key ++ rest) :
    ∃ front behind, pieces = front ++ key.map .kept ++ behind ∧ textOf reading front = before ∧
      textOf reading behind = rest := by
  induction pieces generalizing before with
  | nil => simp [hkey] at hoccurs
  | cons piece pieces ih =>
    by_cases hbefore : before = []
    · subst hbefore
      obtain ⟨behind, hpieces, hbehind⟩ := h.exists_start (List.suffix_refl key) hoccurs
      exact ⟨[], behind, hpieces, rfl, hbehind⟩
    rw [textOf_cons, List.append_assoc] at hoccurs
    rcases List.append_eq_append_iff.1 hoccurs with ⟨more, rfl, hmore⟩ | ⟨more, hpiece, hmore⟩
    · obtain ⟨front, behind, rfl, rfl, hbehind⟩ := ih h.tail (by rw [hmore, List.append_assoc])
      exact ⟨piece :: front, behind, rfl, rfl, hbehind⟩
    · -- The name would start inside the piece, behind its first character.
      by_cases hnil : more = []
      · subst hnil
        obtain ⟨behind, rfl, hbehind⟩ :=
          h.tail.exists_start (List.suffix_refl key) (by simpa using hmore.symm)
        exact ⟨[piece], behind, rfl, by simpa using hpiece, hbehind⟩
      · cases piece with
        | kept c =>
          have hlength := congrArg List.length hpiece
          have hbeforeLength := List.length_pos_iff.2 hbefore
          have hmoreLength := List.length_pos_iff.2 hnil
          simp only [Piece.text, List.length_append, List.length_singleton] at hlength
          omega
        | replaced entry =>
          have happart := h entry (List.mem_cons_self ..)
          have hending : more <:+ (reading entry).toList := ⟨before, hpiece.symm⟩
          rcases List.append_eq_append_iff.1 hmore with ⟨tail, hkeyMore, -⟩ | ⟨tail, hkeyMore, -⟩
          · exact absurd (List.IsInfix.trans ⟨[], tail, hkeyMore.symm⟩ hending.isInfix)
              happart.not_infix
          · exact absurd ⟨tail, hkeyMore.symm⟩ (happart.not_prefix' more hnil hending)

/-- The first occurrence of a name in what pieces write, when macros are read in one way, is the
first in what they write when macros are read in another way. -/
theorem Clears.exists_isFirst (h : Clears Prod.fst pieces key) (h' : Clears Prod.snd pieces key)
    (hwrites : Writes Prod.fst pieces) (hkey : key ≠ [])
    (hfirst : IsFirst key (textOf Prod.fst pieces) before rest) :
    ∃ front behind, pieces = front ++ key.map .kept ++ behind ∧
      textOf Prod.fst front = before ∧ textOf Prod.fst behind = rest ∧
      IsFirst key (textOf Prod.snd pieces) (textOf Prod.snd front) (textOf Prod.snd behind) := by
  obtain ⟨front, behind, hpieces, hfront, hbehind⟩ := h.exists_occurrence hkey hfirst.1
  refine ⟨front, behind, hpieces, hfront, hbehind, by simp [hpieces], ?_⟩
  intro earlier rest' hoccurs
  obtain ⟨front', behind', hpieces', rfl, -⟩ := h'.exists_occurrence hkey hoccurs
  have hle := hfirst.2 (textOf Prod.fst front') (textOf Prod.fst behind') (by simp [hpieces'])
  rw [List.append_assoc] at hpieces hpieces'
  rcases List.append_eq_append_iff.1 (hpieces.symm.trans hpieces') with
    ⟨more, rfl, -⟩ | ⟨more, hmore, -⟩
  · simp
  · -- The other place would be the earlier one, so nothing stands between the two.
    have hlength : (textOf Prod.fst front).length = (textOf Prod.fst front').length := by
      have hge : (textOf Prod.fst front').length ≤ (textOf Prod.fst front).length := by
        simp [hmore]
      rw [← hfront] at hle
      omega
    rw [hwrites.front_eq hpieces hpieces' hlength]

/-! ## Marking a url -/

/-- A place in a row is a given one, or stands behind it or in front of it. -/
theorem place_cases {α : Type} {front behind front' behind' : List α} {a b : α}
    (h : front ++ a :: behind = front' ++ b :: behind') :
    (front = front' ∧ a = b ∧ behind = behind') ∨
      (∃ more, front' = front ++ a :: more ∧ behind = more ++ b :: behind') ∨
      ∃ more, front = front' ++ b :: more ∧ behind' = more ++ a :: behind := by
  rcases List.append_eq_append_iff.1 h with ⟨more, hfront, htail⟩ | ⟨more, hfront, htail⟩
  · cases more with
    | nil =>
      obtain ⟨rfl, rfl⟩ := List.cons.inj htail
      exact .inl ⟨by simpa using hfront.symm, rfl, rfl⟩
    | cons c more =>
      obtain ⟨rfl, rfl⟩ := List.cons.inj htail
      exact .inr (.inl ⟨more, hfront, rfl⟩)
  · cases more with
    | nil =>
      obtain ⟨rfl, rfl⟩ := List.cons.inj htail
      exact .inl ⟨by simpa using hfront, rfl, rfl⟩
    | cons c more =>
      obtain ⟨rfl, rfl⟩ := List.cons.inj htail
      exact .inr (.inr ⟨more, hfront, rfl⟩)

/-- The pieces of a url in which every macro that occurs is marked at its first occurrence. -/
structure Marks (macros : Macros) (url : List Char) (pieces : List Piece) : Prop where
  /-- By their names, the pieces write the url. -/
  text_eq : textOf Prod.fst pieces = url
  /-- What is marked is a macro at the first occurrence of its name. -/
  isFirst : ∀ front macroEntry behind, pieces = front ++ .replaced macroEntry :: behind →
    macroEntry ∈ macros ∧
      IsFirst macroEntry.1.toList url (textOf Prod.fst front) (textOf Prod.fst behind)
  /-- Every macro that occurs is marked. -/
  mem_of_infix : ∀ macroEntry ∈ macros, macroEntry.1.toList <:+: url →
    .replaced macroEntry ∈ pieces

namespace Marks

variable {macros : Macros} {url : List Char}

theorem mem (h : Marks macros url pieces) {entry : String × String}
    (hentry : .replaced entry ∈ pieces) : entry ∈ macros := by
  obtain ⟨front, behind, hpieces⟩ := List.append_of_mem hentry
  exact (h.isFirst front entry behind hpieces).1

/-- Marking goes by the macros, not by their order. -/
theorem of_perm {ordering : Macros} (h : Marks ordering url pieces)
    (hperm : ordering.Perm macros) : Marks macros url pieces where
  text_eq := h.text_eq
  isFirst front entry behind hpieces :=
    ⟨hperm.subset (h.isFirst front entry behind hpieces).1,
      (h.isFirst front entry behind hpieces).2⟩
  mem_of_infix entry hentry := h.mem_of_infix entry (hperm.symm.subset hentry)

/-- Where one marking of a url has a macro, another has it too. -/
theorem eq_replaced (hmacros : Independent macros) {other before tail tail' : List Piece}
    {entry : String × String} {piece : Piece} (h : Marks macros url pieces)
    (h' : Marks macros url other) (hpieces : pieces = before ++ .replaced entry :: tail)
    (hother : other = before ++ piece :: tail') : piece = .replaced entry := by
  obtain ⟨hentry, hfirst⟩ := h.isFirst before entry tail hpieces
  have hmem := h'.mem_of_infix entry hentry ⟨_, _, hfirst.1.symm⟩
  obtain ⟨front, behind, hfront⟩ := List.append_of_mem hmem
  have hsame := ((h'.isFirst front entry behind hfront).2.unique hfirst).1
  have hwrites : Writes Prod.fst other := fun e he => hmacros.key_ne e (h'.mem he)
  obtain rfl := hwrites.front_eq hfront hother (congrArg List.length hsame)
  have htails := List.append_cancel_left (hother.symm.trans hfront)
  exact (List.cons.inj htails).1

/-- A url is marked in one way at most. -/
theorem unique (hmacros : Independent macros) {other : List Piece} (h : Marks macros url pieces)
    (h' : Marks macros url other) : pieces = other := by
  have hwrites : Writes Prod.fst pieces := fun e he => hmacros.key_ne e (h.mem he)
  have hwrites' : Writes Prod.fst other := fun e he => hmacros.key_ne e (h'.mem he)
  have hsame : ∀ {before tail tail'}, pieces = before ++ tail → other = before ++ tail' →
      textOf Prod.fst tail = textOf Prod.fst tail' := by
    intro before tail tail' hpieces hother
    have htext := h.text_eq.trans h'.text_eq.symm
    rw [hpieces, hother, textOf_append, textOf_append] at htext
    exact List.append_cancel_left htext
  -- The two rows are compared piece by piece behind what they share.
  have htails : ∀ tail tail' before, pieces = before ++ tail → other = before ++ tail' →
      tail = tail' := by
    intro tail
    induction tail with
    | nil =>
      intro tail' before hpieces hother
      have htail := hwrites'.mono (hother ▸ List.subset_append_right before tail')
      exact (htail.eq_nil (hsame hpieces hother).symm).symm
    | cons piece tail ih =>
      intro tail' before hpieces hother
      cases tail' with
      | nil =>
        have htail := hwrites.mono (hpieces ▸ List.subset_append_right before (piece :: tail))
        exact htail.eq_nil (hsame hpieces hother)
      | cons piece' tail' =>
        have hpiece : piece = piece' := by
          cases piece with
          | replaced entry => exact (h.eq_replaced hmacros h' hpieces hother).symm
          | kept c =>
            cases piece' with
            | replaced entry => exact h'.eq_replaced hmacros h hother hpieces
            | kept c' => rw [(List.cons.inj (hsame hpieces hother)).1]
        subst hpiece
        rw [ih tail' (before ++ [piece]) (by simp [hpieces]) (by simp [hother])]
  exact htails pieces other [] rfl rfl

/-- A url without macros is marked nowhere. -/
theorem of_nil (url : List Char) : Marks [] url (url.map .kept) where
  text_eq := textOf_map_kept url
  isFirst front entry behind hpieces := by
    have hmem : Piece.replaced entry ∈ url.map Piece.kept := by simp [hpieces]
    simp at hmem
  mem_of_infix entry hentry := absurd hentry List.not_mem_nil

/-- One more macro that occurs in the url is marked at its first occurrence. -/
theorem concat {entry : String × String} (h : Marks macros url pieces)
    (hpieces : pieces = front ++ entry.1.toList.map .kept ++ behind)
    (hfirst : IsFirst entry.1.toList url (textOf Prod.fst front) (textOf Prod.fst behind)) :
    Marks (macros ++ [entry]) url (front ++ .replaced entry :: behind) where
  text_eq := by rw [← h.text_eq, hpieces]; simp [Piece.text]
  isFirst front' other behind' heq := by
    rcases place_cases heq with ⟨rfl, hother, rfl⟩ | ⟨more, rfl, rfl⟩ | ⟨more, rfl, rfl⟩
    · obtain rfl := Piece.replaced.inj hother
      exact ⟨by simp, hfirst⟩
    · obtain ⟨hmem, hother⟩ :=
        h.isFirst (front ++ entry.1.toList.map .kept ++ more) other behind' (by simp [hpieces])
      exact ⟨List.mem_append_left _ hmem, by simpa [Piece.text] using hother⟩
    · obtain ⟨hmem, hother⟩ :=
        h.isFirst front' other (more ++ entry.1.toList.map .kept ++ behind) (by simp [hpieces])
      exact ⟨List.mem_append_left _ hmem, by simpa [Piece.text] using hother⟩
  mem_of_infix other hother hinfix := by
    rcases List.mem_append.1 hother with hother | hother
    · have hmem := h.mem_of_infix other hother hinfix
      simp only [hpieces, List.mem_append, List.mem_map, reduceCtorEq, and_false, exists_false,
        or_false] at hmem
      rcases hmem with hmem | hmem
      · exact List.mem_append_left _ hmem
      · exact List.mem_append_right _ (List.mem_cons_of_mem _ hmem)
    · rw [List.mem_singleton.1 hother]
      simp

/-- One more macro that does not occur in the url is not marked. -/
theorem concat_of_not_infix {entry : String × String} (h : Marks macros url pieces)
    (hentry : ¬ entry.1.toList <:+: url) : Marks (macros ++ [entry]) url pieces where
  text_eq := h.text_eq
  isFirst front other behind hpieces :=
    ⟨List.mem_append_left _ (h.isFirst front other behind hpieces).1,
      (h.isFirst front other behind hpieces).2⟩
  mem_of_infix other hother hinfix := by
    rcases List.mem_append.1 hother with hother | hother
    · exact h.mem_of_infix other hother hinfix
    · exact absurd (List.mem_singleton.1 hother ▸ hinfix) hentry

/-- One more macro replaces in the result what it marks in the url. -/
theorem exists_concat {entry : String × String} (hmacros : Independent (macros ++ [entry]))
    (h : Marks macros url pieces) : ∃ more, Marks (macros ++ [entry]) url more ∧
      Text.replaceFirst entry.1.toList entry.2.toList (textOf Prod.snd pieces) =
        textOf Prod.snd more := by
  have hlast : entry ∈ macros ++ [entry] := by simp
  have hkey : entry.1.toList ≠ [] := mt String.toList_eq_nil_iff.1 (hmacros.key_ne entry hlast)
  have hclears : Clears Prod.fst pieces entry.1.toList := fun other hother =>
    ((List.pairwise_append.1 hmacros.apart).2.2 other (h.mem hother) entry
      (List.mem_singleton_self entry)).symm
  have hclears' : Clears Prod.snd pieces entry.1.toList := by
    intro other hother
    have hmem := List.mem_append_left [entry] (h.mem hother)
    exact Text.apart_of_forall_not_mem hkey
      (mt String.toList_eq_nil_iff.1 (hmacros.value_ne other hmem))
      (hmacros.not_mem_value entry hlast other hmem)
  by_cases hoccurs : entry.1.toList <:+: url
  · obtain ⟨before, rest, hfirst⟩ := Text.exists_isFirst hoccurs
    rw [← h.text_eq] at hfirst
    have hwrites : Writes Prod.fst pieces := fun other hother =>
      hmacros.key_ne other (List.mem_append_left _ (h.mem hother))
    obtain ⟨front, behind, hpieces, rfl, rfl, hresult⟩ :=
      hclears.exists_isFirst hclears' hwrites hkey hfirst
    rw [h.text_eq] at hfirst
    refine ⟨_, h.concat hpieces hfirst, ?_⟩
    rw [Text.replaceFirst, Text.cut?_eq_some_iff.2 hresult]
    simp [Piece.text]
  · refine ⟨pieces, h.concat_of_not_infix hoccurs, ?_⟩
    apply Text.replaceFirst_of_not_infix
    rintro ⟨before, rest, hresult⟩
    obtain ⟨front, behind, hpieces, -⟩ := hclears'.exists_occurrence hkey hresult.symm
    refine hoccurs ⟨textOf Prod.fst front, textOf Prod.fst behind, ?_⟩
    rw [← h.text_eq, hpieces]
    simp

end Marks

/-- The last macro of a table is replaced in what the others leave. -/
theorem expand_concat (macros : Macros) (entry : String × String) (url : String) :
    expand (macros ++ [entry]) url = substitute (expand macros url) entry := by
  simp [expand]

/-- Replacing independent macros one after another gives what the marked url writes when the macros
are read by their values. -/
theorem exists_marks_expand {macros : Macros} (h : Independent macros) (url : String) :
    ∃ pieces, Marks macros url.toList pieces ∧
      (expand macros url).toList = textOf Prod.snd pieces := by
  induction macros using List.reverseRecOn with
  | nil => exact ⟨_, .of_nil url.toList, (textOf_map_kept url.toList).symm⟩
  | append_singleton macros entry ih =>
    obtain ⟨pieces, hmarks, hresult⟩ := ih h.of_append
    obtain ⟨more, hmore, htext⟩ := hmarks.exists_concat h
    refine ⟨more, hmore, ?_⟩
    rw [expand_concat, substitute, hresult, String.toList_ofList, htext]

/-- Independent macros give the same text in every order: the url in which each macro that occurs is
replaced at the first place where its name stands in the url itself. There is one such marking of
the url. -/
theorem expand_of_independent {macros : Macros} (h : Independent macros) (url : String) :
    ∃ pieces, Marks macros url.toList pieces ∧
      (∀ other, Marks macros url.toList other → other = pieces) ∧
      ∀ ordering, ordering.Perm macros →
        expand ordering url = String.ofList (textOf Prod.snd pieces) := by
  obtain ⟨pieces, hmarks, -⟩ := exists_marks_expand h url
  refine ⟨pieces, hmarks, fun other hother => hother.unique h hmarks, ?_⟩
  intro ordering hperm
  obtain ⟨pieces', hmarks', hresult⟩ := exists_marks_expand (h.of_perm hperm) url
  rw [(hmarks'.of_perm hperm).unique h hmarks] at hresult
  rw [← hresult, String.ofList_toList]

/-- A table of two macros whose names cannot overlap. -/
def twoMacros : Macros := [("~", "/lib/"), ("$theme", "/dark")]

/-- The two macros of the table are replaced in any order, each at its first place. -/
theorem expand_twoMacros : Independent twoMacros ∧ twoMacros.reverse.Perm twoMacros ∧
    expand twoMacros "~a/$theme~$theme" = "/lib/a//dark~$theme" ∧
    expand twoMacros.reverse "~a/$theme~$theme" = "/lib/a//dark~$theme" := by
  have h : Independent twoMacros := by
    constructor
    · decide
    · decide
    · simp [twoMacros]
    · decide
  obtain ⟨pieces, -, -, hsame⟩ := expand_of_independent h "~a/$theme~$theme"
  have hperm := List.reverse_perm twoMacros
  have hvalue : expand twoMacros "~a/$theme~$theme" = "/lib/a//dark~$theme" := by decide
  refine ⟨h, hperm, hvalue, ?_⟩
  rw [hsame _ hperm, ← hsame _ (List.Perm.refl _), hvalue]

end StyleBundle.Import
