import DeskScript.Json.Numeral
import Mathlib

/-! How large the numbers of a text get when they are rounded, multiplied and divided: as far as their
exponents tell, which is enough to see that a number that is read is finite. -/

namespace DeskScript

open Float.Model (Format totalExponent UnpackedFloat)
open Float.Model.UnpackedFloat

variable {bound : Int} {u : UnpackedFloat} {x y : Float}

/-- The number is zero, or it is finite and its exponent is at most `bound`. -/
inductive Spans (bound : Int) : UnpackedFloat → Prop
  | zero (s : Sign) : Spans bound (.zero s)
  | finite {s : Sign} {m : Nat} {e : Int} {h : 0 < m} : e ≤ bound → Spans bound (.finite s m e h)

theorem Spans.le {s : Sign} {m : Nat} {e : Int} {h : 0 < m} (spans : Spans bound (.finite s m e h)) :
    e ≤ bound := by
  cases spans with
  | finite le => exact le

theorem isFinite_iff_exponent {b : BitVec Format.binary64.numBits} :
    (unpack Format.binary64 b).isFinite = true ↔ unpackExponent b ≠ -1#_ := by
  unfold unpack
  by_cases h : unpackExponent b = -1#_
  · simp only [h, if_true]
    split <;> simp [isFinite]
  · simp only [h, if_false]
    split
    · split <;> exact ⟨fun _ => h, fun _ => rfl⟩
    · exact ⟨fun _ => h, fun _ => rfl⟩

/-- The exponent of a number is as its bits say. -/
theorem spans_unpack {b : BitVec Format.binary64.numBits} (h : unpackExponent b ≠ -1#_)
    (least : -1074 ≤ bound) (most : ((unpackExponent b).toNat : Int) ≤ bound + 1075) :
    Spans bound (unpack Format.binary64 b) := by
  have bias : (Format.binary64.exponentBias : Int) = 1023 := rfl
  unfold unpack
  simp only [h, if_false]
  split
  · rename_i hz
    split
    · exact .zero _
    · rw [hz]
      exact .finite least
  · exact .finite (by omega)

theorem mantissa_unpack_lt {b : BitVec Format.binary64.numBits} {s : Sign} {m : Nat} {e : Int}
    {h : 0 < m} (hu : unpack Format.binary64 b = .finite s m e h) : m < 2 ^ 53 := by
  unfold unpack at hu
  dsimp only at hu
  split at hu
  · split at hu <;> cases hu
  · split at hu
    · split at hu
      · cases hu
      · cases hu
        exact Nat.lt_trans (BitVec.isLt _) (by decide)
    · cases hu
      exact BitVec.isLt _

theorem unpackExponent_pack {s : Sign} {m : Nat} {e : Int} {h : 0 < m} (most : e ≤ 971) :
    unpackExponent (pack Format.binary64 (.finite s m e h)) ≠ -1#_ ∧
      ((unpackExponent (pack Format.binary64 (.finite s m e h))).toNat : Int) ≤ max (e + 1075) 0 := by
  have bias : (Format.binary64.exponentBias : Int) = 1023 := rfl
  let biased := (e + Format.binary64.exponentBias + (52 : Nat)).toNat
  have few : biased < 2047 := by omega
  have fits : ¬ 2 ^ Format.binary64.exponentBits ≤ biased + 1 := by
    change ¬ 2048 ≤ biased + 1
    omega
  have same : (BitVec.ofNat 11 biased).toNat = biased := by
    rw [BitVec.toNat_ofNat]
    omega
  unfold pack
  dsimp only
  rw [if_neg fits]
  split
  · rw [unpackExponent_packComponents]
    constructor
    · intro full
      have full : (BitVec.ofNat 11 biased).toNat = 2047 := congrArg BitVec.toNat full
      omega
    · change ((BitVec.ofNat 11 biased).toNat : Int) ≤ _
      omega
  · rw [unpackExponent_packComponents]
    exact ⟨by decide, Int.le_max_right _ _⟩

theorem mantissa_shift (em : ExtendedMantissa) (n : Nat) :
    (em >>> n).mantissa = em.mantissa / 2 ^ n := by
  change (n.repeat ExtendedMantissa.shiftRightOne em).mantissa = _
  induction n with
  | zero => simp [Nat.repeat]
  | succ n ih =>
    rw [Nat.repeat, ExtendedMantissa.shiftRightOne, ih, Nat.div_div_eq_div_mul, Nat.pow_succ]

theorem roundedMantissa_le (em : ExtendedMantissa) : em.roundedMantissa ≤ em.mantissa + 1 := by
  obtain ⟨m, round, sticky⟩ := em
  cases round <;> cases sticky <;>
    simp only [ExtendedMantissa.roundedMantissa, ExtendedMantissa.accuracy,
      Accuracy.roundToNearestEven] <;>
    omega

theorem le_roundedMantissa (em : ExtendedMantissa) : em.mantissa ≤ em.roundedMantissa := by
  obtain ⟨m, round, sticky⟩ := em
  cases round <;> cases sticky <;>
    simp only [ExtendedMantissa.roundedMantissa, ExtendedMantissa.accuracy,
      Accuracy.roundToNearestEven] <;>
    omega

/-- Rounding drops as many digits of the mantissa as there are too many, and once more if it gets a digit
more by that. -/
theorem roundWithAccuracy_eq (s : Sign) (m : Nat) (e : Int) (accuracy : Accuracy) : ∃ n r n' : Nat,
    n = (max (totalExponent m e - 53) (-1074) - e).toNat ∧
    m / 2 ^ n ≤ r ∧ r ≤ m / 2 ^ n + 1 ∧
    n' = (max (totalExponent r (e + n) - 53) (-1074) - (e + n)).toNat ∧
    roundWithAccuracy Format.binary64 s m e accuracy =
      if h : r / 2 ^ n' = 0 then .zero s
      else .finite s (r / 2 ^ n') (e + n + n') (Nat.pos_of_ne_zero h) := by
  let n := (max (totalExponent m e - 53) (-1074) - e).toNat
  let r := (ExtendedMantissa.ofMantissaAndAccuracy m accuracy >>> n).roundedMantissa
  let n' := (max (totalExponent r (e + n) - 53) (-1074) - (e + n)).toNat
  have first : (ExtendedMantissa.ofMantissaAndAccuracy m accuracy >>> n).mantissa = m / 2 ^ n := by
    rw [mantissa_shift]
    unfold ExtendedMantissa.ofMantissaAndAccuracy
    split <;> rfl
  have last : (ExtendedMantissa.ofMantissaAndAccuracy r .exact >>> n').mantissa = r / 2 ^ n' :=
    mantissa_shift _ _
  have shape : roundWithAccuracy Format.binary64 s m e accuracy =
      if h : (ExtendedMantissa.ofMantissaAndAccuracy r .exact >>> n').mantissa = 0 then .zero s
      else .finite s (ExtendedMantissa.ofMantissaAndAccuracy r .exact >>> n').mantissa (e + n + n')
        (Nat.pos_of_ne_zero h) := rfl
  refine ⟨n, r, n', rfl, ?_, ?_, rfl, ?_⟩
  · exact first ▸ le_roundedMantissa _
  · exact first ▸ roundedMantissa_le _
  · rw [shape, last]

/-- Rounding lets the exponent rise to the one that is wanted, and by one more if the mantissa gets a
digit more. -/
theorem spans_roundWithAccuracy (s : Sign) {m : Nat} {e : Int} (accuracy : Accuracy)
    (least : -1074 < bound) (own : e < bound) (total : totalExponent m e - 53 < bound) :
    Spans bound (roundWithAccuracy Format.binary64 s m e accuracy) := by
  obtain ⟨n, r, n', hn, -, most, hn', shape⟩ := roundWithAccuracy_eq s m e accuracy
  unfold totalExponent at hn hn' total
  have kept : m / 2 ^ n < 2 ^ 53 := by
    rw [Nat.div_lt_iff_lt_mul (Nat.two_pow_pos n), ← Nat.pow_add]
    exact Nat.lt_of_lt_of_le Nat.lt_log2_self (Nat.pow_le_pow_right (by decide) (by omega))
  have digits : r.log2 ≤ 53 := by
    by_cases hz : r = 0
    · simp [hz]
    · have := (Nat.log2_lt hz).mpr (by omega : r < 2 ^ 54)
      omega
  rw [shape]
  split
  · exact .zero s
  · exact .finite (by omega)

/-- A mantissa that is long enough is rounded to one of full length. -/
theorem roundWithAccuracy_full (s : Sign) {m : Nat} {e : Int} (accuracy : Accuracy) (least : -1074 ≤ e)
    (long : 52 ≤ m.log2) : ∃ m' e' h,
      roundWithAccuracy Format.binary64 s m e accuracy = .finite s m' e' h ∧ m'.log2 = 52 ∧
        totalExponent m e - 53 ≤ e' ∧ e' ≤ totalExponent m e - 52 := by
  obtain ⟨n, r, n', hn, some, most, hn', shape⟩ := roundWithAccuracy_eq s m e accuracy
  unfold totalExponent at hn hn' ⊢
  have pos : m ≠ 0 := by
    rintro rfl
    simp at long
  have hn : m.log2 = 52 + n := by omega
  have kept : 2 ^ 52 ≤ m / 2 ^ n ∧ m / 2 ^ n < 2 ^ 53 := by
    constructor
    · rw [Nat.le_div_iff_mul_le (Nat.two_pow_pos n), ← Nat.pow_add, ← hn]
      exact Nat.log2_self_le pos
    · rw [Nat.div_lt_iff_lt_mul (Nat.two_pow_pos n), ← Nat.pow_add]
      refine Nat.lt_of_lt_of_le Nat.lt_log2_self ?_
      exact Nat.pow_le_pow_right (by decide) (by omega)
  have final : n' ≤ 1 ∧ (r / 2 ^ n').log2 = 52 := by
    by_cases carry : r = 2 ^ 53
    · have digits : r.log2 = 53 := by rw [carry, Nat.log2_two_pow]
      have one : n' = 1 := by omega
      rw [one, carry]
      exact ⟨Nat.le_refl 1, by decide⟩
    · have digits : r.log2 = 52 := (Nat.log2_eq_iff (by omega)).mpr ⟨by omega, by omega⟩
      have none : n' = 0 := by omega
      rw [none, Nat.pow_zero, Nat.div_one]
      exact ⟨Nat.zero_le 1, digits⟩
  have some : r / 2 ^ n' ≠ 0 := by
    intro hz
    simp [hz] at final
  rw [dif_neg some] at shape
  exact ⟨_, _, _, shape, final.2, by omega, by omega⟩

/-! ### Numbers -/

/-- The number is zero, or it is finite and its exponent is at most `bound`. -/
def Within (bound : Int) (x : Float) : Prop := Spans bound x.toModel.unpack

theorem isFinite_iff_within : x.isFinite = true ↔ Within 971 x := by
  let exponent := @unpackExponent Format.binary64 x.toModel.toBits.toBitVec
  have bits : x.isFinite = true ↔ exponent ≠ -1#_ := isFinite_iff_exponent
  constructor
  · intro h
    have full := bits.mp h
    have most : exponent.toNat < 2048 := BitVec.isLt _
    have other : exponent.toNat ≠ 2047 := fun same => full (BitVec.eq_of_toNat_eq same)
    refine spans_unpack full (by decide) ?_
    change (exponent.toNat : Int) ≤ _
    omega
  · intro h
    change (x.toModel.unpack).isFinite = true
    unfold Within at h
    cases hu : x.toModel.unpack with
    | zero | finite => rfl
    | infinity | notANumber =>
      rw [hu] at h
      cases h

theorem within_pack (h : Spans bound u) (least : -1074 ≤ bound) (most : bound ≤ 971) :
    Within bound (.ofModel (.pack u)) := by
  cases u with
  | zero s =>
    have same : unpack Format.binary64 (pack Format.binary64 (.zero s)) = .zero s := by
      cases s <;> rfl
    change Spans bound (unpack Format.binary64 (pack Format.binary64 (.zero s)))
    rw [same]
    exact .zero s
  | finite s m e hm =>
    have he : e ≤ bound := h.le
    obtain ⟨full, exponent⟩ := @unpackExponent_pack s m e hm (by omega)
    exact spans_unpack full least (Int.le_trans exponent (by omega))
  | infinity | notANumber => cases h

/-- A product is as large as both factors together. -/
theorem Within.mul {a b : Int} (hx : Within a x) (hy : Within b y) (least : -1074 < a + b + 54)
    (most : a + b + 54 ≤ 971) : Within (a + b + 54) (x * y) := by
  refine within_pack ?_ (by omega) most
  unfold Within at hx hy
  cases hu : x.toModel.unpack with
  | infinity | notANumber =>
    rw [hu] at hx
    cases hx
  | zero s =>
    cases hv : y.toModel.unpack with
    | infinity | notANumber =>
      rw [hv] at hy
      cases hy
    | zero | finite => exact .zero _
  | finite s m e hm =>
    cases hv : y.toModel.unpack with
    | infinity | notANumber =>
      rw [hv] at hy
      cases hy
    | zero => exact .zero _
    | finite s' m' e' hm' =>
      rw [hu] at hx
      rw [hv] at hy
      have ha : e ≤ a := hx.le
      have hb : e' ≤ b := hy.le
      have product : m * m' < 2 ^ 53 * 2 ^ 53 :=
        Nat.mul_lt_mul'' (mantissa_unpack_lt hu) (mantissa_unpack_lt hv)
      rw [← Nat.pow_add] at product
      have digits := (Nat.log2_lt (Nat.ne_of_gt (Nat.mul_pos hm hm'))).mpr product
      refine spans_roundWithAccuracy _ _ (by omega) (by omega) ?_
      unfold totalExponent
      omega

/-- What is packed is finite or infinite unless it is not a number. -/
theorem isFinite_or_isInf_pack (h : u.isNaN = false) :
    (Float.ofModel (.pack u)).isFinite = true ∨ (Float.ofModel (.pack u)).isInf = true := by
  have infinite (s : Sign) :
      (unpack Format.binary64 (packedInfinity Format.binary64 s)).isInf = true := by
    cases s <;> rfl
  cases u with
  | notANumber => cases h
  | infinity s => exact .inr (infinite s)
  | zero s => exact .inl (isFinite_iff_within.mpr (within_pack (.zero s) (by decide) (by decide)))
  | finite s m e hm =>
    by_cases most : e ≤ 971
    · exact .inl (isFinite_iff_within.mpr (within_pack (.finite most) (by decide) (by decide)))
    · have bias : (Format.binary64.exponentBias : Int) = 1023 := rfl
      have overflow : 2 ^ Format.binary64.exponentBits ≤
          (e + Format.binary64.exponentBias + (52 : Nat)).toNat + 1 := by
        change 2048 ≤ _
        omega
      have same : pack Format.binary64 (.finite s m e hm) = packedInfinity Format.binary64 s := by
        unfold pack
        exact if_pos overflow
      refine .inr ?_
      change (unpack Format.binary64 (pack Format.binary64 (.finite s m e hm))).isInf = true
      rw [same]
      exact infinite s

/-- A product of finite numbers is finite unless it is infinite. -/
theorem isFinite_mul (hx : x.isFinite = true) (hy : y.isFinite = true) (h : (x * y).isInf = false) :
    (x * y).isFinite = true := by
  rw [isFinite_iff_within] at hx hy
  unfold Within at hx hy
  have number : (mul Format.binary64 x.toModel.unpack y.toModel.unpack).isNaN = false := by
    cases hu : x.toModel.unpack with
    | infinity | notANumber =>
      rw [hu] at hx
      cases hx
    | zero s =>
      cases hv : y.toModel.unpack with
      | infinity | notANumber =>
        rw [hv] at hy
        cases hy
      | zero | finite => rfl
    | finite s m e hm =>
      cases hv : y.toModel.unpack with
      | infinity | notANumber =>
        rw [hv] at hy
        cases hy
      | zero => rfl
      | finite s' m' e' hm' =>
        obtain ⟨n, r, n', -, -, -, -, shape⟩ :=
          roundWithAccuracy_eq (s * s') (m * m') (e + e') .exact
        rw [mul, shape]
        split <;> rfl
  refine (isFinite_or_isInf_pack number).resolve_right fun infinite => ?_
  exact Bool.false_ne_true (h.symm.trans infinite)

/-- The number is at least eight. -/
def isLarge (x : Float) : Bool :=
  match x.toModel.unpack with
  | .finite _ m e _ => 4 ≤ totalExponent m e
  | _ => false

/-- A finite number stays so when it is divided by a large one. -/
theorem isFinite_div (hx : x.isFinite = true) (hy : isLarge y = true) : (x / y).isFinite = true := by
  rw [isFinite_iff_within] at hx ⊢
  refine within_pack ?_ (by decide) (by decide)
  unfold Within at hx
  unfold isLarge at hy
  cases hv : y.toModel.unpack with
  | zero | infinity | notANumber => simp [hv] at hy
  | finite s' m' e' hm' =>
    have large : 4 ≤ totalExponent m' e' := by simpa [hv] using hy
    cases hu : x.toModel.unpack with
    | infinity | notANumber =>
      rw [hu] at hx
      cases hx
    | zero s => exact .zero _
    | finite s m e hm =>
      rw [hu] at hx
      have most : e ≤ 971 := hx.le
      have digits := (Nat.log2_lt (Nat.ne_of_gt hm)).mpr (mantissa_unpack_lt hu)
      let target := min (e - e') (max (totalExponent m e - totalExponent m' e' - 53) (-1074))
      let shift := (e - e' - target).toNat
      change Spans 971 (roundWithAccuracy Format.binary64 (s / s') (m <<< shift / m') target _)
      -- The quotient has as many digits as the dividend has more than the divisor, or one more.
      have quotient : m <<< shift / m' < 2 ^ (m.log2 + 1 + shift - m'.log2) := by
        rw [Nat.div_lt_iff_lt_mul hm', Nat.shiftLeft_eq]
        calc m * 2 ^ shift
            < 2 ^ (m.log2 + 1) * 2 ^ shift :=
              Nat.mul_lt_mul_of_pos_right Nat.lt_log2_self (Nat.two_pow_pos shift)
          _ = 2 ^ (m.log2 + 1 + shift) := (Nat.pow_add _ _ _).symm
          _ ≤ 2 ^ (m.log2 + 1 + shift - m'.log2 + m'.log2) :=
              Nat.pow_le_pow_right (by decide) (by omega)
          _ = 2 ^ (m.log2 + 1 + shift - m'.log2) * 2 ^ m'.log2 := Nat.pow_add _ _ _
          _ ≤ 2 ^ (m.log2 + 1 + shift - m'.log2) * m' :=
              Nat.mul_le_mul_left _ (Nat.log2_self_le (Nat.ne_of_gt hm'))
      have length : (m <<< shift / m').log2 ≤ m.log2 + shift - m'.log2 := by
        by_cases hz : m <<< shift / m' = 0
        · simp [hz]
        · have := (Nat.log2_lt hz).mpr quotient
          omega
      simp only [totalExponent] at large
      refine spans_roundWithAccuracy _ _ (by decide) ?_ ?_
      · simp only [target, totalExponent]
        omega
      · have exact : (shift : Int) = e - e' - target := by omega
        simp only [target, totalExponent] at exact ⊢
        omega

theorem isFinite_neg (hx : x.isFinite = true) : (-x).isFinite = true := by
  rw [isFinite_iff_within] at hx ⊢
  refine within_pack ?_ (by decide) (by decide)
  unfold Within at hx
  cases hu : x.toModel.unpack with
  | infinity | notANumber =>
    rw [hu] at hx
    cases hx
  | zero s => exact .zero _
  | finite s m e hm =>
    rw [hu] at hx
    exact .finite hx.le

/-! ### Whole numbers and powers of ten -/

/-- A mantissa of at most 64 digits with its exponent lowered or kept. -/
theorem spans_shifted (s : Sign) {n k : Nat} (h : n < 2 ^ 64) :
    Spans 12 (roundWithAccuracy Format.binary64 s (n <<< k) (-k) .exact) := by
  have digits : (n <<< k).log2 ≤ 63 + k := by
    by_cases hz : n <<< k = 0
    · simp [hz]
    · have few : n <<< k < 2 ^ (64 + k) := by
        rw [Nat.shiftLeft_eq, Nat.pow_add]
        exact Nat.mul_lt_mul_of_pos_right h (Nat.two_pow_pos k)
      have := (Nat.log2_lt hz).mpr few
      omega
  refine spans_roundWithAccuracy s .exact (by decide) (by omega) ?_
  unfold totalExponent
  omega

theorem spans_round (s : Sign) {n : Nat} (h : n < 2 ^ 64) : Spans 12 (round Format.binary64 s n 0) := by
  let k := (0 - Format.binary64.targetExponent (totalExponent n 0)).toNat
  have shape : round Format.binary64 s n 0 =
      roundWithAccuracy Format.binary64 s (n <<< k) (0 - k) .exact := rfl
  rw [shape, Int.zero_sub]
  exact spans_shifted s h

theorem spans_ofNat {n : Nat} (h : n < 2 ^ 64) : Spans 12 (UnpackedFloat.ofNat Format.binary64 n) := by
  cases n with
  | zero => exact .zero _
  | succ n => exact spans_round .positive h

theorem within_toFloat {n : UInt64} : Within 12 n.toFloat :=
  within_pack (spans_ofNat n.toNat_lt) (by decide) (by decide)

theorem Within.mono {a b : Int} (h : Within a x) (le : a ≤ b) : Within b x := by
  unfold Within at h ⊢
  cases hu : x.toModel.unpack with
  | infinity | notANumber =>
    rw [hu] at h
    cases h
  | zero s => exact .zero s
  | finite s m e hm =>
    rw [hu] at h
    exact .finite (Int.le_trans h.le le)

theorem ofScientific_eq {n k : Nat} (some : n ≠ 0) (most : k ≤ 2048) :
    UnpackedFloat.ofScientific Format.binary64 n k =
      roundWithAccuracy Format.binary64 .positive (n <<< 53 * 10 ^ k) (-(53 : Nat)) .exact := by
  have high : ¬ (k : Int) > 2 ^ Format.binary64.exponentBits := by
    change ¬ (2048 : Int) < k
    omega
  have low : ¬ (k : Int) < -((2 ^ Format.binary64.exponentBits : Int) + n.log2) := by
    change ¬ (k : Int) < -(2048 + n.log2)
    omega
  unfold UnpackedFloat.ofScientific
  rw [dif_neg some, if_neg high, if_neg low, if_pos (Int.natCast_nonneg k)]
  rfl

theorem isFinite_ofNat {n : Nat} (h : n < 2 ^ 64) : (Float.ofNat n).isFinite = true := by
  rw [isFinite_iff_within]
  change Within 971 (Float.ofScientific n false 0)
  unfold Float.ofScientific
  split
  · have one : Within (-52) (Float.ofBits 0x3FF0000000000000) := by
      change Spans (-52) (.finite .positive (2 ^ 52) (-52) (by decide))
      exact .finite (Int.le_refl _)
    change Within 971 (n.toUInt64.toFloat * Float.ofBits 0x3FF0000000000000)
    exact (within_toFloat.mul one (by decide) (by decide)).mono (by decide)
  · rename_i slow
    have some : n ≠ 0 := by
      rintro rfl
      exact slow ⟨by decide, by decide⟩
    change Within 971 (.ofModel (.pack (UnpackedFloat.ofScientific Format.binary64 n (0 : Nat))))
    rw [ofScientific_eq some (by decide), Nat.pow_zero, Nat.mul_one]
    exact (within_pack (@spans_shifted .positive n 53 h) (by decide) (by decide)).mono (by decide)

theorem append_one (v : BitVec 52) : (1#1 ++ v).toNat = 2 ^ 52 + v.toNat := by
  rw [BitVec.toNat_append, ← Nat.shiftLeft_add_eq_or_of_lt v.isLt, BitVec.toNat_one (by decide),
    Nat.one_shiftLeft]

theorem ofBitVec_unpackSign (s : Sign) (exponent : BitVec 11) (mantissa : BitVec 52) :
    Sign.ofBitVec (unpackSign (packComponents Format.binary64 s exponent mantissa)) = s := by
  have sign : unpackSign (packComponents Format.binary64 s exponent mantissa) = s.toBitVec := by
    change (s.toBitVec ++ exponent ++ mantissa).extractLsb' 63 1 = s.toBitVec
    rw [BitVec.extractLsb'_append_eq_of_le (by decide), BitVec.extractLsb'_append_eq_of_le (by decide)]
    cases s <;> rfl
  rw [sign]
  cases s <;> rfl

/-- Packing loses nothing of a number of full length. -/
theorem unpack_pack_full {s : Sign} {m : Nat} {e : Int} {h : 0 < m} (full : m.log2 = 52)
    (least : -1074 ≤ e) (most : e ≤ 971) :
    unpack Format.binary64 (pack Format.binary64 (.finite s m e h)) = .finite s m e h := by
  have bias : (Format.binary64.exponentBias : Int) = 1023 := rfl
  let biased := (e + Format.binary64.exponentBias + (52 : Nat)).toNat
  have same : (biased : Int) = e + 1075 := by omega
  have fits : ¬ 2 ^ Format.binary64.exponentBits ≤ biased + 1 := by
    change ¬ 2048 ≤ biased + 1
    omega
  have bits : (BitVec.ofNat 11 biased).toNat = biased := by
    rw [BitVec.toNat_ofNat]
    omega
  have packed : pack Format.binary64 (.finite s m e h) =
      packComponents Format.binary64 s (BitVec.ofNat 11 biased) (BitVec.ofNat 52 m) := by
    unfold pack
    dsimp only
    rw [if_neg fits]
    exact if_pos (congrArg (· + 1) full)
  have infinite : BitVec.ofNat 11 biased ≠ -1#_ := by
    intro hb
    have hb : (BitVec.ofNat 11 biased).toNat = 2047 := congrArg BitVec.toNat hb
    omega
  have small : BitVec.ofNat 11 biased ≠ 0#_ := by
    intro hb
    have hb : (BitVec.ofNat 11 biased).toNat = 0 := congrArg BitVec.toNat hb
    omega
  have mantissa : (1#1 ++ BitVec.ofNat 52 m).toNat = m := by
    obtain ⟨some, few⟩ := (Nat.log2_eq_iff (Nat.ne_of_gt h)).mp full
    rw [append_one, BitVec.toNat_ofNat]
    omega
  have exponent :
      ((BitVec.ofNat 11 biased).toNat : Int) - (Format.binary64.exponentBias + (52 : Nat)) = e := by
    omega
  rw [packed]
  unfold unpack
  simp only [unpackExponent_packComponents, unpackMantissa_packComponents, ofBitVec_unpackSign,
    infinite, small, if_false, exponent, mantissa]

/-- The first powers of ten are looked up, and the last is as long as a number can be. -/
theorem isLarge_first : (∀ k < 23, k ≠ 0 → isLarge (Json.powerOfTen k) = true) ∧
    isLarge (Json.powerOfTen 308) = true := by
  decide +kernel

/-- The powers of ten that are numbers are large, but for one. -/
theorem isLarge_powerOfTen {k : Nat} (some : k ≠ 0) (most : k ≤ 308) :
    isLarge (Json.powerOfTen k) = true := by
  by_cases first : k < 23
  · exact isLarge_first.1 k first some
  by_cases last : k = 308
  · exact last ▸ isLarge_first.2
  have slow : ¬ (1 < 2 ^ 53 ∧ k ≤ 22) := by omega
  have rounded : Json.powerOfTen k = .ofModel (.pack
      (roundWithAccuracy Format.binary64 .positive (1 <<< 53 * 10 ^ k) (-(53 : Nat)) .exact)) := by
    unfold Json.powerOfTen Float.ofScientific
    rw [dif_neg slow, ← ofScientific_eq (by decide) (by omega)]
    rfl
  -- The power has at least 3k binary digits behind its first, and less than 1021.
  have some : 2 ^ (3 * k) ≤ 10 ^ k := by
    rw [Nat.pow_mul]
    exact Nat.pow_le_pow_left (by decide) k
  have blocks (q : Nat) : 10 ^ (31 * q + 28) < 2 ^ (103 * q + 94) := by
    rw [Nat.pow_add, Nat.pow_mul, Nat.pow_add, Nat.pow_mul]
    exact Nat.mul_lt_mul_of_le_of_lt (Nat.pow_le_pow_left (by decide) q) (by decide)
      (Nat.pow_pos (by decide))
  obtain ⟨q, hq, few⟩ : ∃ q ≤ 1021, 10 ^ k < 2 ^ q :=
    ⟨103 * 9 + 94, by decide,
      Nat.lt_of_le_of_lt (Nat.pow_le_pow_right (by decide) (by omega)) (blocks 9)⟩
  have pos : 1 <<< 53 * 10 ^ k ≠ 0 := by
    rw [Nat.one_shiftLeft]
    exact Nat.mul_ne_zero (Nat.ne_of_gt (Nat.two_pow_pos 53)) (Nat.ne_of_gt (Nat.pow_pos (by decide)))
  have least : 53 + 3 * k ≤ (1 <<< 53 * 10 ^ k).log2 := by
    rw [Nat.le_log2 pos, Nat.one_shiftLeft, Nat.pow_add]
    exact Nat.mul_le_mul_left _ some
  have greatest : (1 <<< 53 * 10 ^ k).log2 < 53 + q := by
    rw [Nat.log2_lt pos, Nat.one_shiftLeft, Nat.pow_add]
    exact Nat.mul_lt_mul_of_pos_left few (Nat.two_pow_pos 53)
  obtain ⟨m, e, h, round, full, low, high⟩ := roundWithAccuracy_full .positive .exact
    (by decide : (-1074 : Int) ≤ -(53 : Nat)) (by omega : 52 ≤ (1 <<< 53 * 10 ^ k).log2)
  unfold totalExponent at low high
  have unpacked : (Json.powerOfTen k).toModel.unpack = .finite .positive m e h := by
    rw [rounded, round]
    exact unpack_pack_full full (by omega) (by omega)
  unfold isLarge
  rw [unpacked]
  simp only [totalExponent, full, decide_eq_true_eq]
  omega

theorem isFinite_powerOfTen {k : Nat} (most : k ≤ 308) : (Json.powerOfTen k).isFinite = true := by
  by_cases first : k = 0
  · subst first
    decide +kernel
  · have large := isLarge_powerOfTen first most
    unfold isLarge at large
    split at large
    · rename_i unpacked
      change (Json.powerOfTen k).toModel.unpack.isFinite = true
      rw [unpacked]
      rfl
    · cases large

/-! ### Numbers of a text -/

namespace Json

theorem takeDigits_lt {n : Nat} (h : n < 2 ^ 64) (taken : Nat) (ds : List Nat) :
    (takeDigits n taken ds).1 < 2 ^ 64 := by
  induction ds generalizing n taken with
  | nil => exact h
  | cons d ds ih =>
    unfold takeDigits
    split
    · rename_i fits
      exact ih fits _
    · exact h

/-- What is scaled stays finite, unless it is refused. -/
theorem isFinite_scaleFloat {fuel : Nat} {x y : Float} {exponent : Int} (hx : x.isFinite = true)
    (h : scaleFloat fuel x exponent = some y) : y.isFinite = true := by
  induction fuel generalizing x exponent with
  | zero =>
    cases h
    exact hx
  | succ fuel ih =>
    unfold scaleFloat at h
    split at h
    · rename_i near
      split at h
      · dsimp only at h
        split at h
        · cases h
        · rename_i finite
          cases h
          exact isFinite_mul hx (isFinite_powerOfTen near) (by simpa using finite)
      · rename_i negative
        cases h
        exact isFinite_div hx (isLarge_powerOfTen (by omega) near)
    · split at h
      · cases h
        exact hx
      · split at h
        · cases h
        · exact ih (isFinite_div hx (isLarge_powerOfTen (by decide) (by decide))) h

/-- The number is finite as a float. -/
def Number.IsFinite : Number → Prop
  | .int n => (Float.ofInt n).isFinite = true
  | .real x => x.isFinite = true

theorem isFinite_ofInt {n : Int} (h : n.natAbs < 2 ^ 64) : (Float.ofInt n).isFinite = true := by
  cases n with
  | ofNat n => exact isFinite_ofNat h
  | negSucc n => exact isFinite_neg (isFinite_ofNat h)

theorem Numeral.isFinite_real {n : Numeral} {v : Number} (h : n.real = .ok v) : v.IsFinite := by
  unfold Numeral.real at h
  have whole := takeDigits_lt (by decide : 0 < 2 ^ 64) 0 n.whole
  generalize takeDigits 0 0 n.whole = taken at h whole
  obtain ⟨whole', _, left⟩ := taken
  have digits := takeDigits_lt whole 0 (n.fraction.getD [])
  dsimp only at h digits
  generalize takeDigits whole' 0 (n.fraction.getD []) = taken at h digits
  obtain ⟨significand, behind, _⟩ := taken
  have signed {x : Float} (hx : x.isFinite = true) :
      (Number.real (if n.negative then -x else x)).IsFinite := by
    split
    · exact isFinite_neg hx
    · exact hx
  -- Whatever the exponent says, the result is a signed zero, or scaled from a whole number.
  generalize n.exponent = exponent at h
  rcases exponent with _ | ⟨_ | _, ds⟩
  all_goals
    simp only [Bool.false_eq_true, if_false, if_true] at h
    split at h
    · split at h
      · cases h
      · cases h
        exact signed (isFinite_ofNat (by decide))
    · split at h
      · rename_i scaled
        cases h
        exact signed (isFinite_scaleFloat (isFinite_ofNat digits) scaled)
      · cases h

/-- The value of a number is finite. -/
theorem Numeral.isFinite_value {n : Numeral} {v : Number} (h : n.value = .ok v) : v.IsFinite := by
  unfold Numeral.value at h
  have whole := takeDigits_lt (by decide : 0 < 2 ^ 64) 0 n.whole
  generalize takeDigits 0 0 n.whole = taken at h whole
  obtain ⟨whole', _, left⟩ := taken
  dsimp only at h whole
  split at h
  · split at h
    · cases h
      exact isFinite_ofInt (by simpa using whole)
    · split at h
      · cases h
        exact isFinite_ofInt (by simpa using whole)
      · cases h
        exact isFinite_neg (isFinite_ofNat whole)
  · exact isFinite_real h

end Json

end DeskScript
