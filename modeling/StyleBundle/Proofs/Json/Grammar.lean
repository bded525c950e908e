import Mathlib.Data.List.Basic
import StyleBundle.Proofs.Json.Number
import StyleBundle.Proofs.Json.Quoted

/-!
# JSON texts

What it is for a text to write a value, said without the reader and the printer: the words,
integers, quoted texts, and lists and objects of such values, with blanks wherever they may stand.
All numbers are integers and all texts are made of characters. Of a name that comes twice in an
object the first place and the last value count. The relation knows a bound for the digits of an
integer and for the levels of nesting, because those are what keeps a reader from such a text. The
printer writes such texts.
-/

namespace StyleBundle.Json

variable {τ : Type} {longest levels : ℕ}

/-! ## Levels -/

/-- The items of a list go no deeper than each of them. -/
theorem depthItems_le {items : List (Json τ)} (h : ∀ item ∈ items, item.depth ≤ levels) :
    depthItems items ≤ levels := by
  induction items with
  | nil => exact Nat.zero_le _
  | cons item items ih =>
    obtain ⟨hitem, hitems⟩ := List.forall_mem_cons.1 h
    rw [depthItems]
    exact max_le hitem (ih hitems)

/-- The members of an object go no deeper than each of them. -/
theorem depthMembers_le {members : List (τ × Json τ)}
    (h : ∀ member ∈ members, member.2.depth ≤ levels) : depthMembers members ≤ levels := by
  induction members with
  | nil => exact Nat.zero_le _
  | cons member members ih =>
    obtain ⟨hmember, hmembers⟩ := List.forall_mem_cons.1 h
    obtain ⟨name, value⟩ := member
    rw [depthMembers]
    exact max_le hmember (ih hmembers)

/-! ## Plain values -/

variable [HasSigns τ]

/-- A text that is made of characters. -/
def IsChars (t : τ) : Prop := ∃ s : List Char, HasSigns.signs t = s.map Sign.char

theorem isChars_string (s : String) : IsChars s := ⟨s.toList, rfl⟩

theorem isChars_signsOf (s : String) : IsChars (signsOf s) := ⟨s.toList, rfl⟩

/-- A value that some text writes: no number has a fraction, no integer has more digits than
`longest`, no more levels are nested than `levels`, texts are made of characters, and no name stands
twice in an object. -/
inductive IsPlain (longest : ℕ) : (levels : ℕ) → Json τ → Prop
  /-- The null value. -/
  | null {levels : ℕ} : IsPlain longest levels .null
  /-- The truth values. -/
  | bool {levels : ℕ} (b : Bool) : IsPlain longest levels (.bool b)
  /-- Integers. -/
  | int {levels : ℕ} {n : ℤ} (short : (Nat.toDigits 10 n.natAbs).length ≤ longest) :
    IsPlain longest levels (.int n)
  /-- Texts. -/
  | str {levels : ℕ} {t : τ} (chars : IsChars t) : IsPlain longest levels (.str t)
  /-- Lists of such values. -/
  | arr {levels : ℕ} {items : List (Json τ)}
    (each : ∀ item ∈ items, IsPlain longest levels item) :
    IsPlain longest (levels + 1) (.arr items)
  /-- Objects with such values, each name once. -/
  | obj {levels : ℕ} {members : List (τ × Json τ)} (once : (Table.keys members).Nodup)
    (names : ∀ member ∈ members, IsChars member.1)
    (each : ∀ member ∈ members, IsPlain longest levels member.2) :
    IsPlain longest (levels + 1) (.obj members)

/-- There is room for a plain value of few levels. -/
theorem IsPlain.mono {v : Json τ} (h : IsPlain longest levels v) {more : ℕ} (hle : levels ≤ more) :
    IsPlain longest more v := by
  induction h generalizing more with
  | null => exact .null
  | bool b => exact .bool b
  | int short => exact .int short
  | str chars => exact .str chars
  | arr _ ih =>
    obtain ⟨more, rfl⟩ := Nat.exists_eq_succ_of_ne_zero (by omega : more ≠ 0)
    exact .arr fun item hitem => ih item hitem (by omega)
  | obj once names _ ih =>
    obtain ⟨more, rfl⟩ := Nat.exists_eq_succ_of_ne_zero (by omega : more ≠ 0)
    exact .obj once names fun member hmember => ih member hmember (by omega)

/-- A plain value has no more levels. -/
theorem IsPlain.depth_le {v : Json τ} (h : IsPlain longest levels v) : v.depth ≤ levels := by
  induction h with
  | null | bool | int | str =>
    rw [depth]
    · exact Nat.zero_le _
    all_goals exact nofun
  | arr _ ih =>
    rw [depth]
    exact Nat.succ_le_succ (depthItems_le ih)
  | obj _ _ _ ih =>
    rw [depth]
    exact Nat.succ_le_succ (depthMembers_le ih)

/-! ## Control characters -/

/-- The separators are a comma and a colon, with nothing but blanks behind them. -/
structure Style.IsPlain (style : Style) : Prop where
  /-- What stands between two items or members. -/
  comma_eq : ∃ n, style.comma = ',' :: List.replicate n ' '
  /-- What stands between a name and its value. -/
  colon_eq : ∃ n, style.colon = ':' :: List.replicate n ' '

theorem Style.isPlain_compact : Style.compact.IsPlain := ⟨⟨0, rfl⟩, ⟨0, rfl⟩⟩

theorem Style.isPlain_spaced : Style.spaced.IsPlain := ⟨⟨1, rfl⟩, ⟨1, rfl⟩⟩

theorem printable_of_all {s : List Char} (h : (s.all fun c => 0x20 ≤ c.toNat) = true) :
    ∀ c ∈ s, 0x20 ≤ c.toNat := by simpa using h

theorem printable_replicate (n : ℕ) : ∀ c ∈ List.replicate n ' ', 0x20 ≤ c.toNat := by
  intro c hc
  rw [List.eq_of_mem_replicate hc]
  decide

/-- A text made of characters is printed between quotes as one that writes it. -/
theorem IsChars.isQuoted {t : τ} (h : IsChars t) (ascii : Bool) :
    IsQuoted ((HasSigns.signs t).flatMap (encodeSign ascii)) (HasSigns.signs t) := by
  obtain ⟨s, hs⟩ := h
  rw [hs]
  exact isQuoted_flatMap ascii s

/-- A text made of characters is printed without control characters. -/
theorem IsChars.printable_encodeText {t : τ} (h : IsChars t) (ascii : Bool) :
    ∀ c ∈ encodeText ascii t, 0x20 ≤ c.toNat :=
  List.forall_mem_append.2
    ⟨List.forall_mem_cons.2 ⟨by decide, (h.isQuoted ascii).printable⟩,
      List.forall_mem_singleton.2 (by decide)⟩

section Printable

variable {style : Style} (hstyle : style.IsPlain)

include hstyle

/-- The items of a list have no control characters if none of them has. -/
theorem printable_encodeItems {values : List (Json τ)}
    (hvalues : ∀ v ∈ values, ∀ c ∈ encode style v, 0x20 ≤ c.toNat) :
    ∀ c ∈ encodeItems style values, 0x20 ≤ c.toNat := by
  obtain ⟨n, hcomma⟩ := hstyle.comma_eq
  induction values with
  | nil => exact List.forall_mem_nil _
  | cons v more ih =>
    obtain ⟨hv, hmore⟩ := List.forall_mem_cons.1 hvalues
    cases more with
    | nil => exact hv
    | cons next more =>
      rw [encodeItems, hcomma]
      exact List.forall_mem_append.2 ⟨List.forall_mem_append.2 ⟨hv,
        List.forall_mem_cons.2 ⟨by decide, printable_replicate n⟩⟩, ih hmore⟩

/-- The members of an object have no control characters if no name and no value has. -/
theorem printable_encodeMembers {entries : List (τ × Json τ)}
    (hnames : ∀ entry ∈ entries, IsChars entry.1)
    (hvalues : ∀ entry ∈ entries, ∀ c ∈ encode style entry.2, 0x20 ≤ c.toNat) :
    ∀ c ∈ encodeMembers style entries, 0x20 ≤ c.toNat := by
  obtain ⟨n, hcomma⟩ := hstyle.comma_eq
  obtain ⟨gap, hcolon⟩ := hstyle.colon_eq
  induction entries with
  | nil => exact List.forall_mem_nil _
  | cons entry more ih =>
    obtain ⟨name, v⟩ := entry
    obtain ⟨hname, hnames⟩ := List.forall_mem_cons.1 hnames
    obtain ⟨hv, hmore⟩ := List.forall_mem_cons.1 hvalues
    have hfirst : ∀ c ∈ encodeText style.ascii name ++ style.colon ++ encode style v,
        0x20 ≤ c.toNat := by
      rw [hcolon]
      exact List.forall_mem_append.2 ⟨List.forall_mem_append.2 ⟨hname.printable_encodeText _,
        List.forall_mem_cons.2 ⟨by decide, printable_replicate gap⟩⟩, hv⟩
    cases more with
    | nil => exact hfirst
    | cons next more =>
      rw [encodeMembers, hcomma]
      exact List.forall_mem_append.2 ⟨List.forall_mem_append.2 ⟨hfirst,
        List.forall_mem_cons.2 ⟨by decide, printable_replicate n⟩⟩, ih hnames hmore⟩

/-- The printed text of a plain value has no control characters. -/
theorem IsPlain.printable {v : Json τ} (h : IsPlain longest levels v) :
    ∀ c ∈ encode style v, 0x20 ≤ c.toNat := by
  induction h with
  | null =>
    rw [encode]
    exact printable_of_all rfl
  | bool b =>
    cases b <;> rw [encode] <;> exact printable_of_all rfl
  | @int _ n _ =>
    have hdigits (n : ℕ) : ∀ c ∈ Nat.toDigits 10 n, 0x20 ≤ c.toNat := fun c hc =>
      le_trans (by decide) (Char.isDigit_iff_toNat.1 ((isWhole_toDigits n).isDigit c hc)).1
    rw [encode]
    cases n with
    | ofNat n => exact hdigits n
    | negSucc n => exact List.forall_mem_cons.2 ⟨by decide, hdigits (n + 1)⟩
  | str chars =>
    rw [encode]
    exact chars.printable_encodeText _
  | arr _ ih =>
    rw [encode]
    exact List.forall_mem_append.2
      ⟨List.forall_mem_cons.2 ⟨by decide, printable_encodeItems hstyle ih⟩,
        List.forall_mem_singleton.2 (by decide)⟩
  | obj _ names _ ih =>
    rw [encode]
    exact List.forall_mem_append.2
      ⟨List.forall_mem_cons.2 ⟨by decide, printable_encodeMembers hstyle names ih⟩,
        List.forall_mem_singleton.2 (by decide)⟩

end Printable

/-! ## The grammar -/

variable [DecidableEq τ]

/-- Blanks, or nothing. -/
def IsBlank (s : List Char) : Prop := ∀ c ∈ s, Reader.isSpace c = true

instance (s : List Char) : Decidable (IsBlank s) := List.decidableBAll _ s

/-- An item as it stands in a list. -/
structure Item (τ : Type) where
  /-- The blanks in front. -/
  front : List Char
  /-- The text of the value. -/
  text : List Char
  /-- The blanks behind. -/
  back : List Char
  /-- The value. -/
  value : Json τ

/-- The characters of an item. -/
def Item.chars (item : Item τ) : List Char := item.front ++ item.text ++ item.back

/-- There are only blanks around an item. -/
def Item.IsSpaced (item : Item τ) : Prop := IsBlank item.front ∧ IsBlank item.back

instance (item : Item τ) : Decidable item.IsSpaced :=
  inferInstanceAs (Decidable (IsBlank item.front ∧ IsBlank item.back))

/-- A member as it stands in an object. -/
structure Member (τ : Type) where
  /-- The blanks in front. -/
  front : List Char
  /-- The name between its quotes. -/
  quoted : List Char
  /-- The blanks between the name and the colon. -/
  gap : List Char
  /-- The name. -/
  name : τ
  /-- What stands behind the colon. -/
  item : Item τ

/-- The characters of a member. -/
def Member.chars (member : Member τ) : List Char :=
  member.front ++ '"' :: member.quoted ++ '"' :: member.gap ++ ':' :: member.item.chars

/-- There are only blanks around a member and its parts, and the name is written in quotes. -/
structure Member.IsNamed (member : Member τ) : Prop where
  /-- The blanks in front. -/
  front : IsBlank member.front
  /-- The blanks between the name and the colon. -/
  gap : IsBlank member.gap
  /-- The name. -/
  quoted : IsQuoted member.quoted (HasSigns.signs member.name)
  /-- The blanks around the value. -/
  item : member.item.IsSpaced

/-- The name and the value of a member. -/
def Member.entry (member : Member τ) : τ × Json τ := (member.name, member.item.value)

/-- Parts with commas between them. -/
def row (parts : List (List Char)) : List Char := [','].intercalate parts

/-- A text that writes a value, in which no integer has more digits than `longest` and no more
lists and objects are nested than `levels`. -/
inductive Writes (longest : ℕ) : (levels : ℕ) → List Char → Json τ → Prop
  /-- The word for nothing. -/
  | null {levels : ℕ} : Writes longest levels "null".toList .null
  /-- The word for what holds. -/
  | true {levels : ℕ} : Writes longest levels "true".toList (.bool Bool.true)
  /-- The word for what does not. -/
  | false {levels : ℕ} : Writes longest levels "false".toList (.bool Bool.false)
  /-- An integer. -/
  | int {levels : ℕ} {digits : List Char} (whole : IsWhole digits)
    (short : digits.length ≤ longest) : Writes longest levels digits (.int (Reader.natOf digits))
  /-- An integer behind a minus sign. -/
  | minus {levels : ℕ} {digits : List Char} (whole : IsWhole digits)
    (short : digits.length ≤ longest) :
    Writes longest levels ('-' :: digits) (.int (-(Reader.natOf digits : ℤ)))
  /-- A text. -/
  | str {levels : ℕ} {s : List Char} {t : τ} (quoted : IsQuoted s (HasSigns.signs t)) :
    Writes longest levels ('"' :: (s ++ ['"'])) (.str t)
  /-- A list without items. -/
  | nil {levels : ℕ} {blank : List Char} (isBlank : IsBlank blank) :
    Writes longest (levels + 1) ('[' :: (blank ++ [']'])) (.arr [])
  /-- A list of items. -/
  | arr {levels : ℕ} {items : List (Item τ)} (ne_nil : items ≠ [])
    (spaced : ∀ item ∈ items, item.IsSpaced)
    (each : ∀ item ∈ items, Writes longest levels item.text item.value) :
    Writes longest (levels + 1) ('[' :: (row (items.map Item.chars) ++ [']']))
      (.arr (items.map Item.value))
  /-- An object without members. -/
  | empty {levels : ℕ} {blank : List Char} (isBlank : IsBlank blank) :
    Writes longest (levels + 1) ('\x7b' :: (blank ++ ['\x7d'])) (.obj [])
  /-- An object of members. -/
  | obj {levels : ℕ} {members : List (Member τ)} (ne_nil : members ≠ [])
    (named : ∀ member ∈ members, member.IsNamed)
    (each : ∀ member ∈ members, Writes longest levels member.item.text member.item.value) :
    Writes longest (levels + 1) ('\x7b' :: (row (members.map Member.chars) ++ ['\x7d']))
      (.obj (Table.ofList (members.map Member.entry)))

/-- A whole text that writes a value: there may be blanks around it. -/
structure IsText (longest levels : ℕ) (text : String) (v : Json τ) : Prop where
  /-- The value's own text. -/
  within : ∃ front s back, IsBlank front ∧ Writes longest levels s v ∧ IsBlank back ∧
    text.toList = front ++ s ++ back

theorem row_map_singleton {α : Type} (chars : α → List Char) (part : α) :
    row ([part].map chars) = chars part := by
  simp [row, List.intercalate]

theorem row_map_cons_cons {α : Type} (chars : α → List Char) (part next : α) (parts : List α) :
    row ((part :: next :: parts).map chars) =
      chars part ++ ',' :: row ((next :: parts).map chars) := by
  simp [row, List.intercalate]

/-! ## What a text writes is plain -/

/-- A quoted text is made of characters. -/
theorem IsQuoted.isChars {s : List Char} {signs : List Sign} (h : IsQuoted s signs) :
    ∃ cs : List Char, signs = cs.map Sign.char := by
  induction h with
  | nil => exact ⟨[], rfl⟩
  | @cons c _ _ _ _ _ ih =>
    obtain ⟨cs, rfl⟩ := ih
    exact ⟨c :: cs, rfl⟩

/-- The digits of a number are no more than those it is read from. -/
theorem IsWhole.length_toDigits_le {digits : List Char} (h : IsWhole digits) :
    (Nat.toDigits 10 (Reader.natOf digits)).length ≤ digits.length :=
  (Nat.length_toDigits_le_iff (by decide) (List.length_pos_of_ne_nil h.ne_nil)).2
    (natOf_lt h.isDigit)

/-- What a text writes is plain. -/
theorem Writes.isPlain {s : List Char} {v : Json τ} (h : Writes longest levels s v) :
    IsPlain longest levels v := by
  induction h with
  | null => exact .null
  | true => exact .bool Bool.true
  | false => exact .bool Bool.false
  | int whole short => exact .int (whole.length_toDigits_le.trans short)
  | minus whole short =>
    refine .int ?_
    rw [Int.natAbs_neg]
    exact whole.length_toDigits_le.trans short
  | str quoted => exact .str quoted.isChars
  | nil => exact .arr (List.forall_mem_nil _)
  | arr _ _ _ ih => exact .arr (List.forall_mem_map.2 ih)
  | empty => exact .obj List.nodup_nil (List.forall_mem_nil _) (List.forall_mem_nil _)
  | @obj _ members _ named _ ih =>
    have hentries : ∀ entry ∈ members.map Member.entry,
        IsChars entry.1 ∧ IsPlain longest _ entry.2 :=
      List.forall_mem_map.2 fun member hmember =>
        ⟨(named member hmember).quoted.isChars, ih member hmember⟩
    exact .obj (Table.nodup_keys_ofList _)
      (fun entry hentry => (hentries entry (Table.mem_of_mem_ofList hentry)).1)
      fun entry hentry => (hentries entry (Table.mem_of_mem_ofList hentry)).2

/-! ## What is printed -/

theorem isBlank_nil : IsBlank [] := List.forall_mem_nil _

theorem isBlank_replicate (n : ℕ) : IsBlank (List.replicate n ' ') := by
  intro c hc
  rw [List.eq_of_mem_replicate hc]
  rfl

section Printing

variable {style : Style} (hstyle : style.IsPlain)

include hstyle

/-- The printed items of a list are items of the grammar, with blanks only in front of them. -/
theorem exists_items_encodeItems {values : List (Json τ)} (hne : values ≠ [])
    (hvalues : ∀ v ∈ values, Writes longest levels (encode style v) v) {front : List Char}
    (hfront : IsBlank front) :
    ∃ items : List (Item τ), items.map Item.value = values ∧ (∀ item ∈ items, item.IsSpaced) ∧
      (∀ item ∈ items, Writes longest levels item.text item.value) ∧
      row (items.map Item.chars) = front ++ encodeItems style values := by
  obtain ⟨n, hcomma⟩ := hstyle.comma_eq
  induction values generalizing front with
  | nil => exact absurd rfl hne
  | cons v more ih =>
    obtain ⟨hv, hmore⟩ := List.forall_mem_cons.1 hvalues
    have hspaced : Item.IsSpaced ⟨front, encode style v, [], v⟩ := ⟨hfront, isBlank_nil⟩
    cases more with
    | nil =>
      refine ⟨[⟨front, encode style v, [], v⟩], rfl, List.forall_mem_singleton.2 hspaced,
        List.forall_mem_singleton.2 hv, ?_⟩
      rw [row_map_singleton]
      simp [Item.chars, encodeItems]
    | cons next more =>
      obtain ⟨items, hitems, hblank, hwrites, hrow⟩ :=
        ih (List.cons_ne_nil _ _) hmore (isBlank_replicate n)
      obtain ⟨item, items, rfl⟩ := List.exists_cons_of_ne_nil (l := items) (by
        rintro rfl
        cases hitems)
      refine ⟨⟨front, encode style v, [], v⟩ :: item :: items, by rw [List.map_cons, hitems],
        List.forall_mem_cons.2 ⟨hspaced, hblank⟩, List.forall_mem_cons.2 ⟨hv, hwrites⟩, ?_⟩
      rw [row_map_cons_cons, hrow, encodeItems, hcomma]
      simp [Item.chars]

/-- The printed members of an object are members of the grammar, with blanks only in front of them
and behind their colons. -/
theorem exists_members_encodeMembers {entries : List (τ × Json τ)} (hne : entries ≠ [])
    (hnames : ∀ entry ∈ entries, IsChars entry.1)
    (hvalues : ∀ entry ∈ entries, Writes longest levels (encode style entry.2) entry.2)
    {front : List Char} (hfront : IsBlank front) :
    ∃ members : List (Member τ), members.map Member.entry = entries ∧
      (∀ member ∈ members, member.IsNamed) ∧
      (∀ member ∈ members, Writes longest levels member.item.text member.item.value) ∧
      row (members.map Member.chars) = front ++ encodeMembers style entries := by
  obtain ⟨n, hcomma⟩ := hstyle.comma_eq
  obtain ⟨gap, hcolon⟩ := hstyle.colon_eq
  induction entries generalizing front with
  | nil => exact absurd rfl hne
  | cons entry more ih =>
    obtain ⟨name, v⟩ := entry
    obtain ⟨hname, hnames⟩ := List.forall_mem_cons.1 hnames
    obtain ⟨hv, hmore⟩ := List.forall_mem_cons.1 hvalues
    have hquoted : IsQuoted _ (HasSigns.signs name) := hname.isQuoted style.ascii
    have hnamed : Member.IsNamed ⟨front, (HasSigns.signs name).flatMap (encodeSign style.ascii), [],
        name, ⟨List.replicate gap ' ', encode style v, [], v⟩⟩ :=
      ⟨hfront, isBlank_nil, hquoted, isBlank_replicate gap, isBlank_nil⟩
    cases more with
    | nil =>
      refine ⟨[_], rfl, List.forall_mem_singleton.2 hnamed, List.forall_mem_singleton.2 hv, ?_⟩
      rw [row_map_singleton]
      simp [Member.chars, Item.chars, encodeMembers, encodeText, hcolon]
    | cons next more =>
      obtain ⟨members, hmembers, hblank, hwrites, hrow⟩ :=
        ih (List.cons_ne_nil _ _) hnames hmore (isBlank_replicate n)
      obtain ⟨member, members, rfl⟩ := List.exists_cons_of_ne_nil (l := members) (by
        rintro rfl
        cases hmembers)
      refine ⟨_ :: member :: members, by rw [List.map_cons, hmembers]; rfl,
        List.forall_mem_cons.2 ⟨hnamed, hblank⟩, List.forall_mem_cons.2 ⟨hv, hwrites⟩, ?_⟩
      rw [row_map_cons_cons, hrow, encodeMembers, hcomma]
      simp [Member.chars, Item.chars, encodeText, hcolon]

/-- A plain value is written by its printed text. -/
theorem writes_encode {v : Json τ} (h : IsPlain longest levels v) :
    Writes longest levels (encode style v) v := by
  induction h with
  | null =>
    rw [encode]
    exact .null
  | bool b =>
    cases b with
    | false =>
      rw [encode]
      exact .false
    | true =>
      rw [encode]
      exact .true
  | @int here n short =>
    rw [encode]
    cases n with
    | ofNat n =>
      have hint : Writes longest here _ (.int _ : Json τ) := .int (isWhole_toDigits n) short
      rwa [natOf_toDigits] at hint
    | negSucc n =>
      have hminus : Writes longest here _ (.int _ : Json τ) :=
        .minus (isWhole_toDigits (n + 1)) short
      rwa [natOf_toDigits] at hminus
  | str chars =>
    rw [encode]
    exact .str (chars.isQuoted style.ascii)
  | @arr _ items _ ih =>
    rw [encode]
    cases items with
    | nil => exact .nil isBlank_nil
    | cons item items =>
      obtain ⟨parts, hparts, hspaced, hwrites, hrow⟩ :=
        exists_items_encodeItems hstyle (List.cons_ne_nil _ _) ih isBlank_nil
      rw [List.nil_append] at hrow
      rw [← hrow, ← hparts]
      refine .arr ?_ hspaced hwrites
      rintro rfl
      cases hparts
  | @obj _ members once names _ ih =>
    rw [encode]
    cases members with
    | nil => exact .empty isBlank_nil
    | cons member members =>
      obtain ⟨parts, hparts, hnamed, hwrites, hrow⟩ :=
        exists_members_encodeMembers hstyle (List.cons_ne_nil _ _) names ih isBlank_nil
      rw [List.nil_append] at hrow
      rw [← hrow, ← Table.ofList_of_nodup once, ← hparts]
      refine .obj ?_ hnamed hwrites
      rintro rfl
      cases hparts

end Printing

end StyleBundle.Json
