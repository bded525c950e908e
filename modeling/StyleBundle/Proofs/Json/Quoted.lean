import StyleBundle.Json.Printer
import StyleBundle.Json.Reader

/-!
# Quoted texts

A character may be written as itself, by a short escape, by its number, or, past 65535, by the
numbers of a pair of surrogates. Every one of these is read as the character, up to the closing
quote, and the printer writes one of them, whether or not it escapes characters outside of ASCII.
-/

namespace StyleBundle.Json

/-! ## How characters are written -/

/-- Four hexadecimal digits write a number. -/
inductive IsUnit : Nat → List Char → Prop
  /-- From the highest digit to the lowest. -/
  | mk {a b c d : Char} {p q r s : Nat} (first : Reader.hexValue? a = some p)
    (second : Reader.hexValue? b = some q) (third : Reader.hexValue? c = some r)
    (fourth : Reader.hexValue? d = some s) : IsUnit (((p * 16 + q) * 16 + r) * 16 + s) [a, b, c, d]

/-- The ways in which a character is written. -/
inductive Spells (c : Char) : List Char → Prop
  /-- A short escape. -/
  | short {letter : Char} (escaped : Reader.escaped? letter = some c) : Spells c ['\\', letter]
  /-- The character itself. -/
  | plain (ne_quote : c ≠ '"') (ne_backslash : c ≠ '\\') (printable : ¬ c.toNat < 0x20) :
    Spells c [c]
  /-- An escape by its number. -/
  | unit {digits : List Char} (digits_eq : IsUnit c.toNat digits) :
    Spells c ('\\' :: 'u' :: digits)
  /-- A pair of surrogates. -/
  | pair {high low : List Char} (large : 0x10000 ≤ c.toNat)
    (high_eq : IsUnit (0xD800 + (c.toNat - 0x10000) / 0x400) high)
    (low_eq : IsUnit (0xDC00 + (c.toNat - 0x10000) % 0x400) low) :
    Spells c ('\\' :: 'u' :: high ++ '\\' :: 'u' :: low)

/-- The inside of a quoted text and the characters that it writes. -/
inductive IsQuoted : List Char → List Sign → Prop
  /-- An empty text. -/
  | nil : IsQuoted [] []
  /-- A character and the rest of a text. -/
  | cons {c : Char} {written s : List Char} {signs : List Sign} (first : Spells c written)
    (rest : IsQuoted s signs) : IsQuoted (written ++ s) (.char c :: signs)

/-- A character takes one place at least. -/
theorem Spells.length_pos {c : Char} {written : List Char} (h : Spells c written) :
    0 < written.length := by
  cases h <;> simp

/-! ## Reading -/

/-- The number of an escape is read, where something follows it. -/
theorem IsUnit.hexUnit?_append {n : Nat} {digits : List Char} (h : IsUnit n digits) (next : Char)
    (rest : List Char) :
    Reader.hexUnit? (digits ++ next :: rest) = some (n, next :: rest) := by
  cases h with
  | mk first second third fourth =>
    simp only [List.cons_append, List.nil_append, Reader.hexUnit?, first, second, third, fourth,
      Option.bind_eq_bind, Option.bind_some, Option.pure_def]

/-- A character is read from its number. -/
theorem escapedUnit_append {c : Char} {digits : List Char} (h : IsUnit c.toNat digits) (next : Char)
    (rest : List Char) :
    Reader.escapedUnit (digits ++ next :: rest) = .ok (.char c, next :: rest) := by
  have hvalid : c.toNat < 0xD800 ∨ 0xDFFF < c.toNat ∧ c.toNat < 0x110000 := c.valid
  rw [Reader.escapedUnit, h.hexUnit?_append]
  simp only
  rw [if_pos (by omega), Char.ofNat_toNat]

/-- A pair of surrogates is read as one character. -/
theorem escapedUnit_pair {c : Char} {high low : List Char} (hlarge : 0x10000 ≤ c.toNat)
    (hhigh : IsUnit (0xD800 + (c.toNat - 0x10000) / 0x400) high)
    (hlow : IsUnit (0xDC00 + (c.toNat - 0x10000) % 0x400) low) (next : Char) (rest : List Char) :
    Reader.escapedUnit (high ++ '\\' :: 'u' :: (low ++ next :: rest)) =
      .ok (.char c, next :: rest) := by
  have hvalid : c.toNat < 0xD800 ∨ 0xDFFF < c.toNat ∧ c.toNat < 0x110000 := c.valid
  have hsum : 0x10000 + (0xD800 + (c.toNat - 0x10000) / 0x400 - 0xD800) * 0x400 +
      (0xDC00 + (c.toNat - 0x10000) % 0x400 - 0xDC00) = c.toNat := by omega
  rw [Reader.escapedUnit, hhigh.hexUnit?_append]
  simp only
  rw [if_neg (by omega), if_neg (by omega), hlow.hexUnit?_append]
  simp only
  rw [if_pos (by omega), hsum, Char.ofNat_toNat]

section QuotedText

variable {start fuel : Nat} {c letter : Char} {s rest after : List Char} {sign : Sign}
  {signs : List Sign} (h : Reader.quotedText start fuel rest = .ok (signs, after))

include h

/-- A short escape stands for a character. -/
theorem quotedText_escape (hletter : Reader.escaped? letter = some c) :
    Reader.quotedText start (fuel + 1) ('\\' :: letter :: rest) =
      .ok (.char c :: signs, after) := by
  have hquote : '\\' ≠ '"' := by decide
  have hu : letter ≠ 'u' := by
    rintro rfl
    cases hletter
  rw [Reader.quotedText, if_neg hquote, if_pos rfl, hletter]
  · simp only [h]
    rfl
  · exact hu

/-- An escape by number stands for a sign. -/
theorem quotedText_escapedUnit (hsign : Reader.escapedUnit s = .ok (sign, rest)) :
    Reader.quotedText start (fuel + 1) ('\\' :: 'u' :: s) = .ok (sign :: signs, after) := by
  have hquote : '\\' ≠ '"' := by decide
  rw [Reader.quotedText, if_neg hquote, if_pos rfl, hsign]
  change (Reader.quotedText start fuel rest >>= _) = _
  rw [h]
  rfl

/-- A character that is neither a quote, a backslash nor a control character stands for itself. -/
theorem quotedText_cons (hquote : c ≠ '"') (hbackslash : c ≠ '\\') (hprintable : ¬ c.toNat < 0x20) :
    Reader.quotedText start (fuel + 1) (c :: rest) = .ok (.char c :: signs, after) := by
  rw [Reader.quotedText.eq_def]
  simp only
  rw [if_neg hquote, if_neg hbackslash, if_neg hprintable, h]
  rfl

end QuotedText

/-- A character is read from its place in a text, where something follows it. -/
theorem Spells.quotedText_append {start fuel : Nat} {c next : Char} {written rest after : List Char}
    {signs : List Sign} (hc : Spells c written)
    (h : Reader.quotedText start fuel (next :: rest) = .ok (signs, after)) :
    Reader.quotedText start (fuel + 1) (written ++ next :: rest) =
      .ok (.char c :: signs, after) := by
  cases hc with
  | short escaped => exact quotedText_escape h escaped
  | plain ne_quote ne_backslash printable =>
    exact quotedText_cons h ne_quote ne_backslash printable
  | unit digits_eq => exact quotedText_escapedUnit h (escapedUnit_append digits_eq next rest)
  | pair large high_eq low_eq =>
    have hpair := escapedUnit_pair large high_eq low_eq next rest
    simpa using quotedText_escapedUnit h hpair

/-- The characters of a text are read up to the closing quote. -/
theorem IsQuoted.quotedText_append {s : List Char} {signs : List Sign} (h : IsQuoted s signs)
    (start fuel : Nat) (hfuel : s.length < fuel) (rest : List Char) :
    Reader.quotedText start fuel (s ++ '"' :: rest) = .ok (signs, rest) := by
  induction h generalizing fuel with
  | nil =>
    obtain ⟨fuel, rfl⟩ := Nat.exists_eq_succ_of_ne_zero (by omega : fuel ≠ 0)
    simp [Reader.quotedText]
  | @cons c written s signs first _ ih =>
    obtain ⟨fuel, rfl⟩ := Nat.exists_eq_succ_of_ne_zero (by omega : fuel ≠ 0)
    have hpos := first.length_pos
    rw [List.length_append] at hfuel
    have hrest := ih fuel (by omega)
    obtain ⟨next, more, hnext⟩ := List.exists_cons_of_ne_nil (l := s ++ '"' :: rest) (by simp)
    rw [List.append_assoc]
    rw [hnext] at hrest ⊢
    exact first.quotedText_append hrest

variable {τ : Type} [HasSigns τ]

/-- A quoted text is read behind its opening quote. -/
theorem IsQuoted.text_append {s : List Char} {t : τ} (h : IsQuoted s (HasSigns.signs t))
    (rest : List Char) : Reader.text (s ++ '"' :: rest) = .ok (t, rest) := by
  have hquoted := h.quotedText_append ((s ++ '"' :: rest).length + 1)
    ((s ++ '"' :: rest).length + 1) (by simp only [List.length_append]; omega) rest
  simp only [Reader.text, hquoted, bind, Except.bind, HasSigns.ofSigns?_signs, pure, Except.pure]

/-! ## Printing -/

/-- A hexadecimal digit is read as its value. -/
theorem hexValue?_digitChar : ∀ n < 16, Reader.hexValue? (Nat.digitChar n) = some n := by decide

/-- The printer writes a number with four digits. -/
theorem exists_isUnit_escapeUnit {n : Nat} (h : n < 0x10000) :
    ∃ digits, escapeUnit n = '\\' :: 'u' :: digits ∧ IsUnit n digits := by
  have hdigit (shift : Nat) : Reader.hexValue? (Nat.digitChar (n >>> shift % 16)) =
      some (n >>> shift % 16) := hexValue?_digitChar _ (Nat.mod_lt _ (by decide))
  have hsum : ((n >>> 12 % 16 * 16 + n >>> 8 % 16) * 16 + n >>> 4 % 16) * 16 + n >>> 0 % 16 =
      n := by
    simp only [Nat.shiftRight_eq_div_pow]
    omega
  have hunit := IsUnit.mk (hdigit 12) (hdigit 8) (hdigit 4) (hdigit 0)
  rw [hsum] at hunit
  exact ⟨_, rfl, hunit⟩

/-- The printer writes a character in one of the ways, whether or not characters outside of ASCII
are escaped. -/
theorem spells_encodeChar (ascii : Bool) (c : Char) : Spells c (encodeChar ascii c) := by
  have hvalid : c.toNat < 0xD800 ∨ 0xDFFF < c.toNat ∧ c.toNat < 0x110000 := c.valid
  have hofNat {n : Nat} (hn : c.toNat = n) : some (Char.ofNat n) = some c := by
    rw [← hn, Char.ofNat_toNat]
  have hunit (hc : c.toNat < 0x10000) : Spells c (escapeUnit c.toNat) := by
    obtain ⟨digits, hdigits, hunit⟩ := exists_isUnit_escapeUnit hc
    rw [hdigits]
    exact .unit hunit
  unfold encodeChar
  refine iteInduction (fun hc => .short (by rw [hc]; rfl)) fun hquote => ?_
  refine iteInduction (fun hc => .short (by rw [hc]; rfl)) fun hbackslash => ?_
  refine iteInduction (fun hc => .short (by rw [hc]; rfl)) fun _ => ?_
  refine iteInduction (fun hc => .short (by rw [hc]; rfl)) fun _ => ?_
  refine iteInduction (fun hc => .short (by rw [hc]; rfl)) fun _ => ?_
  refine iteInduction (fun hc => .short (hofNat hc)) fun _ => ?_
  refine iteInduction (fun hc => .short (hofNat hc)) fun _ => ?_
  refine iteInduction (fun hcontrol => hunit (by omega)) fun hprintable => ?_
  refine iteInduction (fun _ => .plain hquote hbackslash hprintable) fun _ => ?_
  refine iteInduction hunit fun hlarge => ?_
  obtain ⟨high, hhigh, hhighUnit⟩ := exists_isUnit_escapeUnit
    (n := 0xD800 + (c.toNat - 0x10000) / 0x400) (by omega)
  obtain ⟨low, hlow, hlowUnit⟩ := exists_isUnit_escapeUnit
    (n := 0xDC00 + (c.toNat - 0x10000) % 0x400) (by omega)
  rw [hhigh, hlow]
  exact .pair (by omega) hhighUnit hlowUnit

/-- The printer writes the inside of a quoted text. -/
theorem isQuoted_flatMap (ascii : Bool) (s : List Char) :
    IsQuoted ((s.map Sign.char).flatMap (encodeSign ascii)) (s.map Sign.char) := by
  induction s with
  | nil => exact .nil
  | cons c s ih => exact .cons (spells_encodeChar ascii c) ih

/-- The letter of a short escape is printable. -/
theorem printable_of_escaped? {letter c : Char} (h : Reader.escaped? letter = some c) :
    0x20 ≤ letter.toNat := by
  refine Nat.not_lt.1 fun hlow => ?_
  have hne {d : Char} (hd : 0x20 ≤ d.toNat) : letter ≠ d := by
    rintro rfl
    exact absurd hlow (Nat.not_lt.2 hd)
  simp [Reader.escaped?, hne (d := '"') (by decide), hne (d := '\\') (by decide),
    hne (d := '/') (by decide), hne (d := 'b') (by decide), hne (d := 'f') (by decide),
    hne (d := 'n') (by decide), hne (d := 'r') (by decide), hne (d := 't') (by decide)] at h

/-- A hexadecimal digit is printable. -/
theorem printable_of_hexValue? {c : Char} {n : Nat} (h : Reader.hexValue? c = some n) :
    0x20 ≤ c.toNat := by
  refine Nat.not_lt.1 fun hlow => ?_
  have hbelow (d : Char) (hd : 0x20 ≤ d.toNat) : ¬ d ≤ c := fun hle =>
    absurd (Nat.le_trans hd (UInt32.le_iff_toNat_le.1 (Char.le_def.1 hle))) (Nat.not_le.2 hlow)
  simp [Reader.hexValue?, hbelow '0' (by decide), hbelow 'a' (by decide),
    hbelow 'A' (by decide)] at h

/-- No way to write a character has control characters. -/
theorem Spells.printable {c : Char} {written : List Char} (h : Spells c written) :
    ∀ d ∈ written, 0x20 ≤ d.toNat := by
  have hunit {n : Nat} {digits : List Char} (h : IsUnit n digits) :
      ∀ d ∈ '\\' :: 'u' :: digits, 0x20 ≤ d.toNat := by
    cases h with
    | mk first second third fourth =>
      simp [printable_of_hexValue? first, printable_of_hexValue? second,
        printable_of_hexValue? third, printable_of_hexValue? fourth]
  cases h with
  | short escaped => simp [printable_of_escaped? escaped]
  | plain _ _ printable => simpa using printable
  | unit digits_eq => exact hunit digits_eq
  | pair _ high_eq low_eq => exact List.forall_mem_append.2 ⟨hunit high_eq, hunit low_eq⟩

/-- The inside of a quoted text has no control characters. -/
theorem IsQuoted.printable {s : List Char} {signs : List Sign} (h : IsQuoted s signs) :
    ∀ c ∈ s, 0x20 ≤ c.toNat := by
  induction h with
  | nil => exact List.forall_mem_nil _
  | cons first _ ih => exact List.forall_mem_append.2 ⟨first.printable, ih⟩

end StyleBundle.Json
