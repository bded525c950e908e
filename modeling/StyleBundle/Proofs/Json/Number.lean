import Mathlib.Algebra.Group.Nat.Defs
import Mathlib.Data.List.Basic
import Mathlib.Data.List.TakeDrop
import StyleBundle.Json.Printer
import StyleBundle.Json.Reader
import StyleBundle.Proofs.Text.Pattern

/-!
# Reading integers

An integer is written with decimal digits, without zeros in front, and is read where nothing follows
that could be part of a number. It is refused if it has more digits than are converted.
-/

namespace StyleBundle.Json

/-! ## Decimal digits -/

/-- A row of digits counts in base ten. -/
theorem natOf_eq_ofDigitChars (s : List Char) : Reader.natOf s = Nat.ofDigitChars 10 s 0 := by
  simp only [Reader.natOf, Nat.ofDigitChars_eq_foldl, Nat.mul_comm]
  rfl

theorem natOf_toDigits (n : Nat) : Reader.natOf (Nat.toDigits 10 n) = n := by
  rw [natOf_eq_ofDigitChars, Nat.ofDigitChars_ten_toDigits]

/-- Digits write a number of no more digits. -/
theorem natOf_lt {s : List Char} (h : ∀ c ∈ s, c.isDigit = true) :
    Reader.natOf s < 10 ^ s.length := by
  rw [natOf_eq_ofDigitChars]
  induction s with
  | nil => decide
  | cons c s ih =>
    have hs := ih fun d hd => h d (List.mem_cons_of_mem c hd)
    have hc : c.toNat - '0'.toNat ≤ 9 :=
      Nat.sub_le_sub_right (Char.isDigit_iff_toNat.1 (h c (List.mem_cons_self ..))).2 _
    have hmul := Nat.mul_le_mul_left (10 ^ s.length) hc
    rw [Nat.ofDigitChars_cons, Nat.ofDigitChars_eq_ofDigitChars_zero, List.length_cons,
      Nat.pow_succ, Nat.mul_zero, Nat.zero_add]
    omega

/-- Only zero is written with a zero in front. -/
theorem head?_toDigits_ne {n : Nat} (h : n ≠ 0) : (Nat.toDigits 10 n).head? ≠ some '0' := by
  induction n using Nat.strongRecOn with
  | ind n ih =>
    by_cases hn : n < 10
    · rw [Nat.toDigits_of_lt_base hn]
      simpa using h
    · rw [Nat.toDigits_of_base_le (by decide) (Nat.not_lt.1 hn),
        List.head?_append_of_ne_nil _ Nat.toDigits_ne_nil]
      exact ih (n / 10) (by omega) (by omega)

/-! ## Numbers in a text -/

/-- The digits of a whole number: no zero stands in front of others. -/
structure IsWhole (digits : List Char) : Prop where
  /-- There are some. -/
  ne_nil : digits ≠ []
  /-- They are decimal. -/
  isDigit : ∀ c ∈ digits, c.isDigit = true
  /-- A zero in front stands alone. -/
  eq_zero : digits.head? = some '0' → digits = ['0']

/-- A number is written with such digits. -/
theorem isWhole_toDigits (n : Nat) : IsWhole (Nat.toDigits 10 n) where
  ne_nil := Nat.toDigits_ne_nil
  isDigit _ hc := Nat.isDigit_of_mem_toDigits (by decide) (by decide) hc
  eq_zero hzero := by
    by_cases hn : n = 0
    · subst hn
      rfl
    · exact absurd hzero (head?_toDigits_ne hn)

/-- What may follow a value inside of another. -/
def closers : List Char := [',', ']', '\x7d', ' ', '\t', '\n', '\r']

/-- Nothing follows, or what ends a value. -/
def EndsValue (rest : List Char) : Prop := ∀ c ∈ rest.head?, c ∈ closers

theorem endsValue_cons {c : Char} (h : c ∈ closers) (rest : List Char) : EndsValue (c :: rest) := by
  intro d hd
  obtain rfl : c = d := Option.some.inj hd
  exact h

theorem endsValue_nil : EndsValue [] := nofun

/-- Neither a fraction nor an exponent follows. -/
theorem EndsValue.parts {rest : List Char} (h : EndsValue rest) :
    Reader.fraction rest = ([], rest) ∧ Reader.exponent rest = (none, rest) := by
  cases rest with
  | nil => exact ⟨rfl, rfl⟩
  | cons c rest =>
    have hc := h c rfl
    simp only [closers, List.mem_cons, List.not_mem_nil, or_false] at hc
    rcases hc with rfl | rfl | rfl | rfl | rfl | rfl | rfl <;> exact ⟨rfl, rfl⟩

section Whole

variable {digits rest : List Char} (hdigits : IsWhole digits) (h : EndsValue rest)

include hdigits h

/-- The digits of a number end where it ends. -/
theorem IsWhole.isRun : Text.IsRun Char.isDigit digits rest := by
  refine ⟨hdigits.isDigit, fun c hc => ?_⟩
  have hcloser : closers.all (!Char.isDigit ·) = true := by decide
  simpa using List.all_eq_true.1 hcloser c (h c hc)

/-- The digits of a number are its integer part. -/
theorem IsWhole.integerPart_append : Reader.integerPart (digits ++ rest) = (digits, rest) := by
  have hrun := hdigits.isRun h
  unfold Reader.integerPart
  split
  next more heq =>
    have hhead : (digits ++ rest).head? = digits.head? :=
      List.head?_append_of_ne_nil digits hdigits.ne_nil
    rw [heq] at hhead
    have hzero := hdigits.eq_zero hhead.symm
    rw [hzero] at heq ⊢
    rw [(List.cons.inj heq).2.symm]
    rfl
  · rw [Reader.digits, List.span_eq_takeWhile_dropWhile, hrun.takeWhile_append,
      hrun.dropWhile_append]

variable {τ : Type} (left : Nat) (negative : Bool)

/-- A number is read from its digits. -/
theorem IsWhole.number_append (hshort : digits.length ≤ maxDigits) :
    Reader.number left negative (digits ++ rest) = .ok
      ((.int (if negative then -(Reader.natOf digits : Int) else Reader.natOf digits) : Json τ),
        rest) := by
  obtain ⟨hfraction, hexponent⟩ := h.parts
  simp only [Reader.number, hdigits.integerPart_append h, hfraction, hexponent]
  rw [if_neg (by simpa using hdigits.ne_nil), if_pos (by simp), if_neg (Nat.not_lt.2 hshort)]

/-- A number with too many digits is refused. -/
theorem IsWhole.number_long (hlong : maxDigits < digits.length) :
    (Reader.number left negative (digits ++ rest) : Except Fault (Json τ × List Char)) =
      .error ⟨.longInteger digits.length, left⟩ := by
  obtain ⟨hfraction, hexponent⟩ := h.parts
  simp only [Reader.number, hdigits.integerPart_append h, hfraction, hexponent]
  rw [if_neg (by simpa using hdigits.ne_nil), if_pos (by simp), if_pos hlong]

end Whole

end StyleBundle.Json
