import StyleBundle.Disk.Reading

/-!
# Decoding undoes encoding

Every text has an encoding, and strict decoding gives the text back. A text without carriage
returns is also left alone by the way in which files are read.
-/

namespace StyleBundle

namespace Text.Utf8

theorem toNat_toUInt8 {n : Nat} (h : n < 256) : n.toUInt8.toNat = n := by
  simp [Nat.toUInt8, Nat.mod_eq_of_lt h]

/-- A byte with the mark of a continuation gives back its six low bits. -/
theorem tail?_toUInt8 {n : Nat} (h : n < 64) : tail? (0x80 + n).toUInt8 = some n := by
  unfold tail?
  rw [toNat_toUInt8 (by omega), if_pos (by omega)]
  simp

/-- The second byte gives back its six low bits where the lead byte allows it. -/
theorem second?_toUInt8 {lead n : Nat} (h : n < 64)
    (hrange : (secondRange lead).1 ≤ 0x80 + n ∧ 0x80 + n ≤ (secondRange lead).2) :
    second? lead (0x80 + n).toUInt8 = some n := by
  unfold second?
  rw [toNat_toUInt8 (by omega)]
  simp [hrange]

/-- Two bytes give back a number below 2048. -/
theorem step_two {n : Nat} (hlow : 0x80 ≤ n) (hhigh : n < 0x800) (rest : List UInt8) :
    step (0xC0 + n / 64).toUInt8 ((0x80 + n % 64).toUInt8 :: rest) = .char (Char.ofNat n) rest := by
  have hlead : (0xC0 + n / 64).toUInt8.toNat = 0xC0 + n / 64 := toNat_toUInt8 (by omega)
  have hsum : (0xC0 + n / 64 - 0xC0) * 64 + n % 64 = n := by omega
  have hlast : tail? (0x80 + n % 64).toUInt8 = some (n % 64) :=
    tail?_toUInt8 (Nat.mod_lt n (by decide))
  simp only [step, hlead]
  rw [if_neg (by omega), if_neg (by omega), if_pos (by omega)]
  simp only [hlast, hsum]

/-- Three bytes give back a number below 65536 that is no surrogate. -/
theorem step_three {n : Nat} (hlow : 0x800 ≤ n) (hhigh : n < 0x10000)
    (hvalid : n < 0xD800 ∨ 0xDFFF < n) (rest : List UInt8) :
    step (0xE0 + n / 4096).toUInt8
      ((0x80 + n / 64 % 64).toUInt8 :: (0x80 + n % 64).toUInt8 :: rest) =
      .char (Char.ofNat n) rest := by
  have hlead : (0xE0 + n / 4096).toUInt8.toNat = 0xE0 + n / 4096 := toNat_toUInt8 (by omega)
  have hsum : ((0xE0 + n / 4096 - 0xE0) * 64 + n / 64 % 64) * 64 + n % 64 = n := by omega
  have hrange : (secondRange (0xE0 + n / 4096)).1 ≤ 0x80 + n / 64 % 64 ∧
      0x80 + n / 64 % 64 ≤ (secondRange (0xE0 + n / 4096)).2 := by
    unfold secondRange
    split
    · simp only; omega
    · split
      · simp only; omega
      · rw [if_neg (by omega), if_neg (by omega)]
        simp only; omega
  have hsecond := second?_toUInt8 (Nat.mod_lt (n / 64) (by decide : 0 < 64)) hrange
  have hlast : tail? (0x80 + n % 64).toUInt8 = some (n % 64) :=
    tail?_toUInt8 (Nat.mod_lt n (by decide))
  simp only [step, hlead]
  rw [if_neg (by omega), if_neg (by omega), if_neg (by omega), if_pos (by omega)]
  simp only [hsecond, hlast, hsum]

/-- Four bytes give back any greater number of a character. -/
theorem step_four {n : Nat} (hlow : 0x10000 ≤ n) (hhigh : n < 0x110000) (rest : List UInt8) :
    step (0xF0 + n / 262144).toUInt8
      ((0x80 + n / 4096 % 64).toUInt8 :: (0x80 + n / 64 % 64).toUInt8 ::
        (0x80 + n % 64).toUInt8 :: rest) = .char (Char.ofNat n) rest := by
  have hlead : (0xF0 + n / 262144).toUInt8.toNat = 0xF0 + n / 262144 := toNat_toUInt8 (by omega)
  have hsum : (((0xF0 + n / 262144 - 0xF0) * 64 + n / 4096 % 64) * 64 + n / 64 % 64) * 64 +
      n % 64 = n := by omega
  have hrange : (secondRange (0xF0 + n / 262144)).1 ≤ 0x80 + n / 4096 % 64 ∧
      0x80 + n / 4096 % 64 ≤ (secondRange (0xF0 + n / 262144)).2 := by
    unfold secondRange
    rw [if_neg (by omega), if_neg (by omega)]
    split
    · simp only; omega
    · split <;> (simp only; omega)
  have hsecond := second?_toUInt8 (Nat.mod_lt (n / 4096) (by decide : 0 < 64)) hrange
  have hthird : tail? (0x80 + n / 64 % 64).toUInt8 = some (n / 64 % 64) :=
    tail?_toUInt8 (Nat.mod_lt _ (by decide))
  have hlast : tail? (0x80 + n % 64).toUInt8 = some (n % 64) :=
    tail?_toUInt8 (Nat.mod_lt n (by decide))
  simp only [step, hlead]
  rw [if_neg (by omega), if_neg (by omega), if_neg (by omega), if_neg (by omega),
    if_pos (by omega)]
  simp only [hsecond, hthird, hlast, hsum]

/-- A step of decoding finds the character that was encoded. -/
theorem step_encodeChar (c : Char) (rest : List UInt8) : ∃ lead tail,
    encodeChar c ++ rest = lead :: tail ∧ step lead tail = .char c rest := by
  have hvalid : c.toNat < 0xD800 ∨ 0xDFFF < c.toNat ∧ c.toNat < 0x110000 := c.valid
  unfold encodeChar
  simp only
  split
  next h1 =>
    refine ⟨_, rest, rfl, ?_⟩
    simp only [step, toNat_toUInt8 (by omega : c.toNat < 256)]
    rw [if_pos h1, Char.ofNat_toNat]
  next h1 =>
    split
    next h2 =>
      have hstep := step_two (by omega) h2 rest
      rw [Char.ofNat_toNat] at hstep
      exact ⟨_, _, rfl, hstep⟩
    next h2 =>
      split
      next h3 =>
        have hstep := step_three (by omega) h3 (by omega) rest
        rw [Char.ofNat_toNat] at hstep
        exact ⟨_, _, rfl, hstep⟩
      next h3 =>
        have hstep := step_four (n := c.toNat) (by omega) (by omega) rest
        rw [Char.ofNat_toNat] at hstep
        exact ⟨_, _, rfl, hstep⟩

/-- Decoding an encoded text gives the text, wherever it starts. -/
theorem decodeFrom_encode (start : Nat) (s : List Char) : decodeFrom start (encode s) = .ok s := by
  induction s generalizing start with
  | nil => simp [encode, decodeFrom]
  | cons c rest ih =>
    obtain ⟨lead, tail, hbytes, hstep⟩ := step_encodeChar c (encode rest)
    have h : encode (c :: rest) = lead :: tail := by simpa [encode] using hbytes
    rw [h, decodeFrom]
    split
    next hrefuse => simp [hstep] at hrefuse
    next c' after hchar =>
      obtain ⟨rfl, rfl⟩ : c = c' ∧ encode rest = after := by simpa [hstep] using hchar
      rw [ih]

/-- Decoding undoes encoding. -/
theorem decode_encode (s : List Char) : decode (encode s) = .ok s := decodeFrom_encode 0 s

/-- Texts with the same bytes are the same. -/
theorem encode_injective : Function.Injective encode := by
  intro s t h
  have hdecoded := congrArg decode h
  rw [decode_encode, decode_encode] at hdecoded
  exact Except.ok.inj hdecoded

end Text.Utf8

namespace Disk

/-- An encoded text without carriage returns is read as that text. -/
theorem textOf_encode {text : String} (h : '\r' ∉ text.toList) :
    textOf (Text.Utf8.encode text.toList) = .ok text := by
  simp only [textOf, Text.Utf8.decode_encode, Text.unifyLineBreaks_eq_self h, String.ofList_toList]

end Disk

end StyleBundle
