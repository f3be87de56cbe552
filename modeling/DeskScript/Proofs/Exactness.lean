import DeskScript.Proofs.Magnitudes

/-! Whole numbers as floats. Below 2^53 they are floats, each in one form, and so sums and differences that
stay there are not rounded. -/

namespace DeskScript

open Float.Model (Format totalExponent UnpackedFloat)
open Float.Model.UnpackedFloat

def unpackedValue? : UnpackedFloat → Option ℚ
  | .zero _ => some 0
  | .finite s m e _ => some (s.apply m * 2 ^ e)
  | .infinity _ | .notANumber => none

/-- The number that a finite float stands for. -/
def value? (x : Float) : Option ℚ := unpackedValue? x.toModel.unpack

/-- The float stands for a whole number so small that floats tell all such numbers apart. -/
def Exactly (n : ℤ) (x : Float) : Prop := |n| < 2 ^ 53 ∧ value? x = some (n : ℚ)

namespace Exactly

/-! ### Rounding -/

variable {n k : ℕ}

/-- How many zeros behind a number make a mantissa of full length. -/
def zeros (n : ℕ) : ℕ := 52 - n.log2

theorem log2_mul_two_pow (pos : 0 < n) (k : ℕ) : (n * 2 ^ k).log2 = n.log2 + k := by
  rw [Nat.log2_eq_iff (by positivity)]
  constructor
  · rw [Nat.pow_add]
    exact Nat.mul_le_mul_right _ (Nat.log2_self_le pos.ne')
  · rw [Nat.add_right_comm, Nat.pow_add]
    exact Nat.mul_lt_mul_of_pos_right Nat.lt_log2_self (Nat.two_pow_pos k)

theorem log2_add_zeros (pos : 0 < n) (few : n < 2 ^ 53) : n.log2 + zeros n = 52 := by
  have := (Nat.log2_lt pos.ne').mpr few
  unfold zeros
  omega

theorem targetExponent_eq (pos : 0 < n) (few : n < 2 ^ 53) (k : ℕ) :
    Format.binary64.targetExponent (totalExponent (n * 2 ^ k) (-k)) = -zeros n := by
  have digits := log2_add_zeros pos few
  simp only [Format.targetExponent, Format.minExponent, Format.mantissaBits, totalExponent,
    log2_mul_two_pow pos]
  omega

/-- Zeros at the end of a mantissa are dropped without a trace. -/
theorem shift_zeros (n k : ℕ) : ExtendedMantissa.ofMantissaAndAccuracy (n * 2 ^ k) .exact >>> k =
    ExtendedMantissa.ofMantissaAndAccuracy n .exact := by
  change k.repeat ExtendedMantissa.shiftRightOne _ = _
  induction k generalizing n with
  | zero => simp [Nat.repeat]
  | succ k ih =>
    rw [Nat.repeat, Nat.pow_succ', ← Nat.mul_assoc, ih]
    simp [ExtendedMantissa.shiftRightOne, ExtendedMantissa.ofMantissaAndAccuracy]

theorem shiftToTargetExponent_eq (pos : 0 < n) (few : n < 2 ^ 53) (long : zeros n ≤ k) :
    shiftToTargetExponent Format.binary64 (n * 2 ^ k) (-k) .exact =
      (ExtendedMantissa.ofMantissaAndAccuracy (n * 2 ^ zeros n) .exact, -(zeros n : ℤ)) := by
  obtain ⟨d, rfl⟩ := Nat.exists_eq_add_of_le long
  have shift : (-(zeros n : ℤ) - -(zeros n + d : ℕ)).toNat = d := by omega
  have exponent : -((zeros n + d : ℕ) : ℤ) + d = -zeros n := by omega
  simp only [shiftToTargetExponent, shiftToExponent, targetExponent_eq pos few, shift, exponent]
  rw [Nat.pow_add, ← Nat.mul_assoc, shift_zeros]

theorem mantissa_pos (pos : 0 < n) : 0 < n * 2 ^ zeros n := Nat.mul_pos pos (Nat.two_pow_pos _)

/-- However many zeros stand behind a whole number, it is rounded to itself. -/
theorem round_eq (s : Sign) (pos : 0 < n) (few : n < 2 ^ 53) (k : ℕ) :
    UnpackedFloat.round Format.binary64 s (n * 2 ^ k) (-k) =
      .finite s (n * 2 ^ zeros n) (-zeros n) (mantissa_pos pos) := by
  let d := (-(k : ℤ) - -zeros n).toNat
  have exponent : -(k : ℤ) - d = -(k + d : ℕ) := by omega
  have shape : UnpackedFloat.round Format.binary64 s (n * 2 ^ k) (-k) =
      roundWithAccuracy Format.binary64 s (n * 2 ^ (k + d)) (-(k + d : ℕ)) .exact := by
    unfold UnpackedFloat.round
    rw [targetExponent_eq pos few, Nat.pow_add, ← Nat.mul_assoc, ← Nat.shiftLeft_eq _ d, ← exponent]
    rfl
  have kept : (ExtendedMantissa.ofMantissaAndAccuracy (n * 2 ^ zeros n) .exact).roundedMantissa =
      n * 2 ^ zeros n := rfl
  rw [shape]
  simp only [roundWithAccuracy, shiftToTargetExponent_eq pos few (by omega : zeros n ≤ k + d), kept,
    shiftToTargetExponent_eq pos few (Nat.le_refl _)]
  exact dif_neg (mantissa_pos pos).ne'

/-! ### The form of a whole number -/

def sign (n : ℤ) : Sign := if n < 0 then .negative else .positive

/-- A whole number below 2^53 as floats have it. -/
def form (n : ℤ) : UnpackedFloat :=
  if h : n = 0 then .zero .positive
  else .finite (sign n) (n.natAbs * 2 ^ zeros n.natAbs) (-zeros n.natAbs)
    (mantissa_pos (Int.natAbs_pos.mpr h))

theorem apply_sign_mul (n : ℤ) (m : ℕ) : (sign n).apply (n.natAbs * m : ℕ) = n * m := by
  rw [Int.natCast_mul]
  unfold sign
  split
  · have size : (n.natAbs : ℤ) = -n := by omega
    change -(n.natAbs * m : ℤ) = n * m
    rw [size, Int.neg_mul, Int.neg_neg]
  · have size : (n.natAbs : ℤ) = n := by omega
    change (n.natAbs * m : ℤ) = n * m
    rw [size]

theorem unpackedValue?_form (n : ℤ) : unpackedValue? (form n) = some (n : ℚ) := by
  unfold form
  split
  · rename_i zero
    rw [zero]
    rfl
  · rw [unpackedValue?, apply_sign_mul]
    simp

/-- However many zeros stand behind a whole number, it gets the same form. -/
theorem normalize_eq {n : ℤ} (few : n.natAbs < 2 ^ 53) (k : ℕ) :
    UnpackedFloat.normalize Format.binary64 (n * 2 ^ k) (-k) .positive = form n := by
  have scale : (0 : ℤ) < 2 ^ k := by positivity
  have size : (n.natAbs : ℤ) * 2 ^ k = (n.natAbs * 2 ^ k : ℕ) := by push_cast; rfl
  unfold UnpackedFloat.normalize
  rcases lt_trichotomy n 0 with negative | rfl | positive
  · have order : compare (n * 2 ^ k) 0 = .lt :=
      Int.compare_eq_lt.mpr (Int.mul_neg_of_neg_of_pos negative scale)
    have size : (-(n * 2 ^ k)).toNat = n.natAbs * 2 ^ k := by
      rw [← Int.neg_mul, ← Int.ofNat_natAbs_of_nonpos negative.le, size, Int.toNat_natCast]
    rw [order, size, form, dif_neg negative.ne, sign, if_pos negative]
    exact round_eq _ (Int.natAbs_pos.mpr negative.ne) few k
  · simp [form]
  · have order : compare (n * 2 ^ k) 0 = .gt := Int.compare_eq_gt.mpr (Int.mul_pos positive scale)
    have size : (n * 2 ^ k).toNat = n.natAbs * 2 ^ k := by
      rw [← Int.natAbs_of_nonneg positive.le, size, Int.toNat_natCast, Int.natAbs_natCast]
    rw [order, size, form, dif_neg positive.ne', sign, if_neg positive.le.not_gt]
    exact round_eq _ (Int.natAbs_pos.mpr positive.ne') few k

/-- Packing loses nothing of a whole number. -/
theorem unpack_pack_form {n : ℤ} (few : n.natAbs < 2 ^ 53) :
    unpack Format.binary64 (pack Format.binary64 (form n)) = form n := by
  unfold form
  split
  · rfl
  · rename_i some
    have pos := Int.natAbs_pos.mpr some
    have digits := log2_add_zeros pos few
    have full : (n.natAbs * 2 ^ zeros n.natAbs).log2 = 52 := by rw [log2_mul_two_pow pos, digits]
    exact unpack_pack_full full (by omega) (by omega)

/-! ### Sums and differences -/

theorem neg_form {n : ℤ} (some : n ≠ 0) : (form n).neg = form (-n) := by
  have signs : -sign n = sign (-n) := by
    unfold sign
    rcases lt_or_gt_of_ne some with negative | positive
    · rw [if_pos negative, if_neg (by omega)]
      rfl
    · rw [if_neg (by omega), if_pos (by omega)]
      rfl
  simp only [form, some, neg_eq_zero, dif_neg, not_false_eq_true, UnpackedFloat.neg, signs, Int.natAbs_neg]

/-- The mantissas of two whole numbers are put in line by zeros. -/
theorem apply_decreaseExponent (n : ℤ) {k : ℕ} (long : zeros n.natAbs ≤ k) :
    (sign n).apply (decreaseExponent (n.natAbs * 2 ^ zeros n.natAbs) (-zeros n.natAbs) (-k)).1 =
      n * 2 ^ k := by
  obtain ⟨d, rfl⟩ := Nat.exists_eq_add_of_le long
  have shift : (-(zeros n.natAbs : ℤ) - -(zeros n.natAbs + d : ℕ)).toNat = d := by omega
  simp only [decreaseExponent, shift]
  rw [Nat.shiftLeft_eq, Nat.mul_assoc, ← Nat.pow_add, apply_sign_mul]
  push_cast
  rfl

theorem add_form {a b : ℤ} (few : (a + b).natAbs < 2 ^ 53) :
    UnpackedFloat.add Format.binary64 (form a) (form b) = form (a + b) := by
  by_cases ha : a = 0
  · by_cases hb : b = 0
    · simp only [ha, hb]
      rfl
    · simp [ha, form, hb, UnpackedFloat.add]
  · by_cases hb : b = 0
    · simp [hb, form, ha, UnpackedFloat.add]
    · let k := max (zeros a.natAbs) (zeros b.natAbs)
      have smaller : min (-(zeros a.natAbs : ℤ)) (-zeros b.natAbs) = -k := by omega
      have shape : UnpackedFloat.add Format.binary64 (form a) (form b) =
          UnpackedFloat.normalize Format.binary64 (a * 2 ^ k + b * 2 ^ k) (-k) .positive := by
        simp only [form, ha, hb, dif_neg, not_false_eq_true, UnpackedFloat.add, smaller]
        rw [apply_decreaseExponent a (Nat.le_max_left ..), apply_decreaseExponent b (Nat.le_max_right ..)]
      rw [shape, ← Int.add_mul, normalize_eq few]

theorem sub_eq_add (u v : UnpackedFloat) :
    UnpackedFloat.sub Format.binary64 u v = UnpackedFloat.add Format.binary64 u v.neg := by
  cases u <;> cases v <;> try rfl
  case finite.finite s m e _ s' m' e' _ =>
    have opposite (m : ℕ) : (-s').apply m = -s'.apply m := by
      cases s' with
      | positive => rfl
      | negative => exact (Int.neg_neg _).symm
    simp only [UnpackedFloat.sub, UnpackedFloat.add, UnpackedFloat.neg, opposite, Int.sub_eq_add_neg]

theorem sub_form {a b : ℤ} (few : (a - b).natAbs < 2 ^ 53) :
    UnpackedFloat.sub Format.binary64 (form a) (form b) = form (a - b) := by
  by_cases hb : b = 0
  · by_cases ha : a = 0
    · simp only [ha, hb]
      rfl
    · simp [hb, form, ha, UnpackedFloat.sub]
  · rw [sub_eq_add, neg_form hb, add_form (by omega), Int.sub_eq_add_neg]

/-! ### Floats -/

variable {x y : Float} {a b : ℤ}

/-- The float is a whole number below 2^53 in its form. -/
def HasForm (n : ℤ) (x : Float) : Prop := |n| < 2 ^ 53 ∧ x.toModel.unpack = form n

theorem HasForm.exactly (h : HasForm a x) : Exactly a x :=
  ⟨h.1, (congrArg unpackedValue? h.2).trans (unpackedValue?_form a)⟩

theorem natAbs_lt (few : |a| < 2 ^ 53) : a.natAbs < 2 ^ 53 := by
  rw [Int.abs_eq_natAbs] at few
  exact_mod_cast few

theorem hasForm_pack {u : UnpackedFloat} (few : |a| < 2 ^ 53) (h : u = form a) :
    HasForm a (.ofModel (.pack u)) := ⟨few, by rw [h]; exact unpack_pack_form (natAbs_lt few)⟩

theorem hasForm_toFloat {n : ℕ} (few : n < 2 ^ 53) : HasForm n n.toUInt64.toFloat := by
  have small : |(n : ℤ)| < 2 ^ 53 := by
    rw [Nat.abs_cast]
    exact_mod_cast few
  refine hasForm_pack small ?_
  have same : n.toUInt64.toNat = n := Nat.mod_eq_of_lt (by omega)
  have shape : UnpackedFloat.ofUInt64 Format.binary64 n.toUInt64 =
      UnpackedFloat.normalize Format.binary64 (n.toUInt64.toNat * 2 ^ 0) (-(0 : ℕ)) .positive := by
    rw [Int.pow_zero, Int.mul_one]
    rfl
  rw [shape, same, normalize_eq (natAbs_lt small)]

theorem HasForm.add (hx : HasForm a x) (hy : HasForm b y) (few : |a + b| < 2 ^ 53) :
    HasForm (a + b) (x + y) := by
  refine hasForm_pack few ?_
  rw [hx.2, hy.2]
  exact add_form (natAbs_lt few)

theorem HasForm.sub (hx : HasForm a x) (hy : HasForm b y) (few : |a - b| < 2 ^ 53) :
    HasForm (a - b) (x - y) := by
  refine hasForm_pack few ?_
  rw [hx.2, hy.2]
  exact sub_form (natAbs_lt few)

end Exactly

end DeskScript
