import Mathlib.Data.List.Induction

/-! Decimal digits: every text of them is the usual decimal of a number, with zeros before it. -/

namespace DeskScript.Text

variable {c : Char} {cs : List Char} {n : Nat}

theorem digitChar_of_isDigit (digit : c.isDigit = true) :
    c.toNat - '0'.toNat < 10 ∧ Nat.digitChar (c.toNat - '0'.toNat) = c := by
  have bounds : 48 ≤ c.toNat ∧ c.toNat ≤ 57 := by
    simpa [Char.isDigit, UInt32.le_iff_toNat_le] using digit
  have zero : '0'.toNat = 48 := rfl
  have lt : c.toNat - '0'.toNat < 10 := by omega
  refine ⟨lt, Char.toNat_inj.mp ?_⟩
  rw [Nat.toNat_digitChar_of_lt_ten lt]
  omega

/-- One more digit after the usual decimal of a number that is not zero. -/
theorem toDigits_append (pos : 0 < n) (digit : c.isDigit = true) :
    Nat.toDigits 10 (10 * n + (c.toNat - '0'.toNat)) = Nat.toDigits 10 n ++ [c] := by
  obtain ⟨lt, eq⟩ := digitChar_of_isDigit digit
  rw [← Nat.toDigits_append_toDigits (by decide) pos lt, Nat.toDigits_of_lt_base lt, eq]

theorem exists_zeros (some : cs ≠ []) (digits : ∀ c ∈ cs, c.isDigit = true) :
    ∃ zeros, cs = List.replicate zeros '0' ++ Nat.toDigits 10 (Nat.ofDigitChars 10 cs 0) := by
  induction cs using List.reverseRecOn with
  | nil => exact absurd rfl some
  | append_singleton ds c ih =>
    have digit := digits c (by simp)
    obtain ⟨lt, eq⟩ := digitChar_of_isDigit digit
    rw [Nat.ofDigitChars_append, Nat.ofDigitChars_cons, Nat.ofDigitChars_nil]
    by_cases none : ds = []
    · subst none
      refine ⟨0, ?_⟩
      rw [Nat.ofDigitChars_nil, Nat.mul_zero, Nat.zero_add, Nat.toDigits_of_lt_base lt, eq]
      rfl
    obtain ⟨zeros, whole⟩ := ih none fun d mem => digits d (by simp [mem])
    obtain zero | pos := Nat.eq_zero_or_pos (Nat.ofDigitChars 10 ds 0)
    -- Only zeros so far: the zero that was the number is now one more of those before it.
    · refine ⟨zeros + 1, ?_⟩
      rw [zero] at whole
      rw [zero, Nat.mul_zero, Nat.zero_add, Nat.toDigits_of_lt_base lt, eq, whole,
        List.replicate_succ']
      rfl
    · refine ⟨zeros, ?_⟩
      rw [toDigits_append pos digit, ← List.append_assoc, ← whole]

end DeskScript.Text
