import StyleBundle.Text.Base64

/-!
# Reading what was written in base 64

Decoding goes from group to group. Four digits give back three bytes; the last group may hold two
or three digits, and padding ends it.
-/

namespace StyleBundle.Text.Base64

/-- A digit is read as its value. -/
theorem value?_digit : ∀ n < 64, value? (digit n) = some n := by decide

section Digit

variable {whole pads : Nat} {c : Char} {v : Nat} {rest : List Char} (h : value? c = some v)

include h

/-- What has a value is no padding. -/
theorem ne_pad_of_value? : c ≠ '=' := by
  rintro rfl
  simp [value?] at h

/-- A first digit starts a group. -/
theorem decodeFrom_empty :
    decodeFrom whole .empty pads (c :: rest) = decodeFrom whole (.one v) 0 rest := by
  simp [decodeFrom, ne_pad_of_value? h, h]

theorem decodeFrom_one (a : Nat) :
    decodeFrom whole (.one a) pads (c :: rest) = decodeFrom whole (.two a v) 0 rest := by
  simp [decodeFrom, ne_pad_of_value? h, h]

theorem decodeFrom_two (a b : Nat) :
    decodeFrom whole (.two a b) pads (c :: rest) = decodeFrom whole (.three a b v) 0 rest := by
  simp [decodeFrom, ne_pad_of_value? h, h]

/-- A fourth digit fills a group. -/
theorem decodeFrom_three (a b d : Nat) : decodeFrom whole (.three a b d) pads (c :: rest) =
    (decodeFrom (whole + 1) .empty 0 rest).map (bytes a b d v ++ ·) := by
  cases hrest : decodeFrom (whole + 1) .empty 0 rest <;>
    simp [decodeFrom, ne_pad_of_value? h, h, hrest, Except.map]

end Digit

/-- The digits of three bytes make up their bytes. -/
theorem bytes_digits (a b c : UInt8) :
    bytes (a.toNat / 4) (a.toNat % 4 * 16 + b.toNat / 16) (b.toNat % 16 * 4 + c.toNat / 64)
      (c.toNat % 64) = [a, b, c] := by
  have ha := a.toNat_lt
  have hb := b.toNat_lt
  have hc := c.toNat_lt
  have hfirst : a.toNat / 4 * 4 + (a.toNat % 4 * 16 + b.toNat / 16) / 16 = a.toNat := by omega
  have hsecond : (a.toNat % 4 * 16 + b.toNat / 16) % 16 * 16 +
      (b.toNat % 16 * 4 + c.toNat / 64) / 4 = b.toNat := by omega
  have hthird : (b.toNat % 16 * 4 + c.toNat / 64) % 4 * 64 + c.toNat % 64 = c.toNat := by omega
  rw [bytes, hfirst, hsecond, hthird]
  simp

/-- Decoding undoes encoding, behind any number of groups. -/
theorem decodeFrom_encode (whole pads : Nat) (s : List UInt8) :
    decodeFrom whole .empty pads (encode s) = .ok s := by
  induction s using encode.induct generalizing whole pads with
  | case1 => rfl
  | case2 a =>
    have ha := a.toNat_lt
    have hbytes : bytes (a.toNat / 4) (a.toNat % 4 * 16) 0 0 = [a, 0, 0] := by
      simpa using bytes_digits a 0 0
    rw [encode, decodeFrom_empty (value?_digit _ (by omega)),
      decodeFrom_one (value?_digit _ (by omega))]
    simp [decodeFrom, hbytes]
  | case3 a b =>
    have ha := a.toNat_lt
    have hb := b.toNat_lt
    have hbytes : bytes (a.toNat / 4) (a.toNat % 4 * 16 + b.toNat / 16) (b.toNat % 16 * 4) 0 =
        [a, b, 0] := by simpa using bytes_digits a b 0
    rw [encode, decodeFrom_empty (value?_digit _ (by omega)),
      decodeFrom_one (value?_digit _ (by omega)), decodeFrom_two (value?_digit _ (by omega))]
    simp [decodeFrom, hbytes]
  | case4 a b c rest ih =>
    have ha := a.toNat_lt
    have hb := b.toNat_lt
    have hc := c.toNat_lt
    rw [encode, decodeFrom_empty (value?_digit _ (by omega)),
      decodeFrom_one (value?_digit _ (by omega)), decodeFrom_two (value?_digit _ (by omega)),
      decodeFrom_three (value?_digit _ (by omega)), ih, bytes_digits]
    rfl

/-- Decoding undoes encoding. -/
theorem decode_encode (s : List UInt8) : decode (encode s) = .ok s := decodeFrom_encode 0 0 s

/-- A text of base 64 holds digits and padding only. -/
theorem value?_or_pad_of_mem_encode {s : List UInt8} {c : Char} (h : c ∈ encode s) :
    (value? c).isSome = true ∨ c = '=' := by
  have hdigit {n : Nat} (hn : n < 64) : (value? (digit n)).isSome = true := by
    rw [value?_digit n hn, Option.isSome_some]
  induction s using encode.induct with
  | case1 => cases h
  | case2 a =>
    have ha := a.toNat_lt
    simp only [encode, List.mem_cons, List.not_mem_nil, or_false] at h
    rcases h with rfl | rfl | rfl | rfl
    · exact .inl (hdigit (by omega))
    · exact .inl (hdigit (by omega))
    · exact .inr rfl
    · exact .inr rfl
  | case3 a b =>
    have ha := a.toNat_lt
    have hb := b.toNat_lt
    simp only [encode, List.mem_cons, List.not_mem_nil, or_false] at h
    rcases h with rfl | rfl | rfl | rfl
    · exact .inl (hdigit (by omega))
    · exact .inl (hdigit (by omega))
    · exact .inl (hdigit (by omega))
    · exact .inr rfl
  | case4 a b c rest ih =>
    have ha := a.toNat_lt
    have hb := b.toNat_lt
    have hc := c.toNat_lt
    simp only [encode, List.mem_cons] at h
    rcases h with rfl | rfl | rfl | rfl | h
    · exact .inl (hdigit (by omega))
    · exact .inl (hdigit (by omega))
    · exact .inl (hdigit (by omega))
    · exact .inl (hdigit (by omega))
    · exact ih h

/-- Bytes are written with one digit at least. -/
theorem encode_ne_nil {s : List UInt8} (h : s ≠ []) : encode s ≠ [] := by
  intro hnil
  have hdecode := decode_encode s
  rw [hnil] at hdecode
  exact h (Except.ok.inj hdecode).symm

end StyleBundle.Text.Base64
