import Mathlib.Data.Nat.Log
import Mathlib.Tactic.Linarith
import Mathlib.Tactic.NormNum

/-!
# Rounding of doubles

What the arithmetic of doubles does with sizes, in natural numbers: a mantissa that is cut
to 53 bits grows by at most half of its last place, a result whose exact value lies below
the halfway point behind the greatest double does not overflow, and packing keeps finite
values finite.
-/

namespace QuerySurface.Decimal

open Float.Model Float.Model.UnpackedFloat

/-- The point halfway between the two greatest doubles. -/
def ceiling : Nat :=
  (2 ^ 54 - 3) * 2 ^ 970

/-! ## Shifting and rounding of mantissas -/

/-- Shifting drops the last bits of the mantissa. -/
theorem shifted_mantissa (em : ExtendedMantissa) (count : Nat) :
    (em >>> count).mantissa = em.mantissa / 2 ^ count := by
  induction count with
  | zero => simp [HShiftRight.hShiftRight, Nat.repeat]
  | succ count ih =>
    change (em >>> count).mantissa / 2 = _
    rw [ih, Nat.div_div_eq_div_mul, ← Nat.pow_succ]

/-- The round bit of an exact mantissa is the last bit that was shifted out. -/
theorem shifted_roundBit {m count : Nat}
    (h : (ExtendedMantissa.ofMantissaAndAccuracy m .exact >>> count).roundBit = true) :
    ∃ before, count = before + 1 ∧ m / 2 ^ before % 2 = 1 := by
  cases count with
  | zero => simp [HShiftRight.hShiftRight, Nat.repeat, ExtendedMantissa.ofMantissaAndAccuracy] at h
  | succ before =>
    change (((_ : ExtendedMantissa) >>> before).mantissa % 2 != 0) = true at h
    rw [shifted_mantissa] at h
    change (m / 2 ^ before % 2 != 0) = true at h
    have hodd : m / 2 ^ before % 2 ≠ 0 := by simpa using h
    exact ⟨before, rfl, by omega⟩

/-- Rounding a mantissa never makes it smaller. -/
theorem le_roundedMantissa (em : ExtendedMantissa) : em.mantissa ≤ em.roundedMantissa := by
  obtain ⟨m, round, sticky⟩ := em
  cases round <;> cases sticky <;>
    simp [ExtendedMantissa.roundedMantissa, ExtendedMantissa.accuracy,
      Accuracy.roundToNearestEven]

/-- Rounding adds one to a mantissa at most, and only if the round bit is set. -/
theorem roundedMantissa_le (em : ExtendedMantissa) :
    em.roundedMantissa ≤ em.mantissa + em.roundBit.toNat := by
  obtain ⟨m, round, sticky⟩ := em
  cases round <;> cases sticky <;>
    simp [ExtendedMantissa.roundedMantissa, ExtendedMantissa.accuracy,
      Accuracy.roundToNearestEven]
  omega

/-- Rounding to nearest adds at most half of the last place that is kept. -/
theorem rounded_le_half (m count : Nat) :
    2 * ((ExtendedMantissa.ofMantissaAndAccuracy m .exact >>> count).roundedMantissa * 2 ^ count) ≤
      2 * m + 2 ^ count := by
  have hbound := roundedMantissa_le (ExtendedMantissa.ofMantissaAndAccuracy m .exact >>> count)
  rw [shifted_mantissa] at hbound
  change _ ≤ m / 2 ^ count + _ at hbound
  have hfloor := Nat.div_mul_le_self m (2 ^ count)
  cases hbit : (ExtendedMantissa.ofMantissaAndAccuracy m .exact >>> count).roundBit with
  | false =>
    rw [hbit] at hbound
    have hscaled := Nat.mul_le_mul_right (2 ^ count) hbound
    exact Nat.le_add_right_of_le (Nat.mul_le_mul_left 2 (hscaled.trans hfloor))
  | true =>
    rw [hbit] at hbound
    have hscaled := Nat.mul_le_mul_right (2 ^ count) hbound
    obtain ⟨before, rfl, hodd⟩ := shifted_roundBit hbit
    -- The bit in front of the cut is set, so at least half a place is shifted out.
    have hhalf : m / 2 ^ before = 2 * (m / 2 ^ (before + 1)) + 1 := by
      rw [Nat.pow_succ, ← Nat.div_div_eq_div_mul]
      omega
    have hwhole := Nat.div_mul_le_self m (2 ^ before)
    rw [hhalf] at hwhole
    have hpower : 2 ^ (before + 1) = 2 * 2 ^ before := by rw [Nat.pow_succ, Nat.mul_comm]
    simp only [Bool.toNat_true] at hscaled
    generalize m / 2 ^ (before + 1) = q at hscaled hwhole
    rw [hpower] at hscaled ⊢
    nlinarith

/-! ## Rounding to 53 bits -/

/-- How far a mantissa has to be shifted to fit a double. -/
def places (m : Nat) (e : Int) : Nat :=
  (max (m.log2 + e - 52) (-1074) - e).toNat

/-- The exponent at which 53 bits are kept, at least that of the least double. -/
theorem targetExponent_eq (total : Int) :
    Format.binary64.targetExponent total = max (total - 53) (-1074) :=
  rfl

/-- The shift in front of a rounding is by the places that do not fit. -/
theorem shiftToTargetExponent_eq (m : Nat) (e : Int) (accuracy : Accuracy) :
    shiftToTargetExponent Format.binary64 m e accuracy =
      (ExtendedMantissa.ofMantissaAndAccuracy m accuracy >>> places m e, e + places m e) := by
  have htarget : Format.binary64.targetExponent (totalExponent m e) =
      max (m.log2 + e - 52) (-1074) := by
    rw [targetExponent_eq, totalExponent]
    omega
  simp only [shiftToTargetExponent, shiftToExponent, htarget, places]

/-- The accuracy of a mantissa does not change its value. -/
theorem ofMantissaAndAccuracy_mantissa (m : Nat) (accuracy : Accuracy) :
    (ExtendedMantissa.ofMantissaAndAccuracy m accuracy).mantissa = m := by
  cases accuracy with
  | exact => rfl
  | inexact order => cases order <;> rfl

/-- The mantissa behind the first shift of a rounding, after rounding. -/
def roundedTo (m : Nat) (e : Int) (accuracy : Accuracy) : Nat :=
  (ExtendedMantissa.ofMantissaAndAccuracy m accuracy >>> places m e).roundedMantissa

/-- A mantissa that lost the places that do not fit has at most 53 bits. -/
theorem div_places_lt (m : Nat) (e : Int) : m / 2 ^ places m e < 2 ^ 53 := by
  rw [Nat.div_lt_iff_lt_mul (Nat.two_pow_pos _), ← Nat.pow_add]
  have hsize := Nat.lt_log2_self (n := m)
  have hwide : m.log2 + 1 ≤ 53 + places m e := by
    unfold places
    omega
  exact lt_of_lt_of_le hsize (Nat.pow_le_pow_right (by decide) hwide)

/-- Rounding carries a mantissa of 53 bits to the next power of two at most. -/
theorem roundedTo_le (m : Nat) (e : Int) (accuracy : Accuracy) :
    roundedTo m e accuracy ≤ 2 ^ 53 := by
  have hbound :=
    roundedMantissa_le (ExtendedMantissa.ofMantissaAndAccuracy m accuracy >>> places m e)
  rw [shifted_mantissa, ofMantissaAndAccuracy_mantissa] at hbound
  have hbit :
      (ExtendedMantissa.ofMantissaAndAccuracy m accuracy >>> places m e).roundBit.toNat ≤ 1 :=
    Bool.toNat_le _
  have hsmall := div_places_lt m e
  unfold roundedTo
  omega

/-- A mantissa below `2 ^ 53` has its leading bit at place 52 or lower. -/
theorem log2_le_of_lt {m : Nat} (h : m < 2 ^ 53) : m.log2 ≤ 52 := by
  by_cases hzero : m = 0
  · simp [hzero]
  · have := (Nat.log2_lt hzero).mpr h
    omega

/-- A mantissa of 53 bits with an exponent in range is not shifted. -/
theorem places_eq_zero {m : Nat} {e : Int} (hsmall : m < 2 ^ 53) (hlow : -1074 ≤ e) :
    places m e = 0 := by
  have := log2_le_of_lt hsmall
  unfold places
  omega

/-- A value with a mantissa, or zero. -/
def assembled (sign : Sign) (m : Nat) (e : Int) : UnpackedFloat :=
  if hzero : m = 0 then .zero sign else .finite sign m e (Nat.pos_of_ne_zero hzero)

/-- Rounding shifts once more, since rounding up may have made the mantissa longer. -/
theorem roundWithAccuracy_eq_assembled (sign : Sign) (m : Nat) (e : Int) (accuracy : Accuracy) :
    roundWithAccuracy Format.binary64 sign m e accuracy =
      assembled sign
        (roundedTo m e accuracy / 2 ^ places (roundedTo m e accuracy) (e + places m e))
        (e + places m e + places (roundedTo m e accuracy) (e + places m e)) := by
  have hfirst := shiftToTargetExponent_eq m e accuracy
  have hsecond := shiftToTargetExponent_eq (roundedTo m e accuracy) (e + places m e) .exact
  unfold roundWithAccuracy
  rw [hfirst]
  change assembled sign
    (shiftToTargetExponent Format.binary64 (roundedTo m e accuracy) (e + places m e)
      .exact).1.mantissa
    (shiftToTargetExponent Format.binary64 (roundedTo m e accuracy) (e + places m e) .exact).2 = _
  rw [hsecond, shifted_mantissa, ofMantissaAndAccuracy_mantissa]

/-- What rounding delivers: what is cut and rounded has at most 53 bits, or is the power of two
that takes one more place. -/
theorem roundWithAccuracy_cases (sign : Sign) (m : Nat) (e : Int) (accuracy : Accuracy) :
    (roundedTo m e accuracy = 0 ∧
      roundWithAccuracy Format.binary64 sign m e accuracy = .zero sign) ∨
    (roundedTo m e accuracy < 2 ^ 53 ∧ ∃ hpositive,
      roundWithAccuracy Format.binary64 sign m e accuracy =
        .finite sign (roundedTo m e accuracy) (e + places m e) hpositive) ∨
    (roundedTo m e accuracy = 2 ^ 53 ∧ ∃ hpositive,
      roundWithAccuracy Format.binary64 sign m e accuracy =
        .finite sign (2 ^ 52) (e + places m e + 1) hpositive) := by
  have hbound := roundedTo_le m e accuracy
  have hlow : -1074 ≤ e + places m e := by
    unfold places
    omega
  rw [roundWithAccuracy_eq_assembled]
  by_cases hsmall : roundedTo m e accuracy < 2 ^ 53
  · rw [places_eq_zero hsmall hlow, pow_zero, Nat.div_one, Nat.cast_zero, add_zero]
    by_cases hzero : roundedTo m e accuracy = 0
    · exact .inl ⟨hzero, dif_pos hzero⟩
    · exact .inr (.inl ⟨hsmall, _, dif_neg hzero⟩)
  · have hfull : roundedTo m e accuracy = 2 ^ 53 := by omega
    have hone : places (2 ^ 53) (e + places m e) = 1 := by
      simp only [places, Nat.log2_two_pow] at hlow ⊢
      omega
    rw [hfull, hone]
    exact .inr (.inr ⟨rfl, by decide, rfl⟩)

/-! ## Exponents of results -/

/-- A finite value with an exponent that is not above a limit. -/
def ExponentAtMost (limit : Int) : UnpackedFloat → Prop
  | .zero _ => True
  | .finite _ _ e _ => e ≤ limit
  | .infinity _ | .notANumber => False

/-- A limit may be raised. -/
theorem ExponentAtMost.mono {low high : Int} {u : UnpackedFloat} (h : ExponentAtMost low u)
    (hle : low ≤ high) : ExponentAtMost high u := by
  cases u with
  | zero _ => trivial
  | finite _ _ e _ =>
    have : e ≤ low := h
    exact le_trans this hle
  | infinity _ => exact h
  | notANumber => exact h

/-- A changed sign keeps the limit. -/
theorem ExponentAtMost.neg {limit : Int} {u : UnpackedFloat} (h : ExponentAtMost limit u) :
    ExponentAtMost limit u.neg := by
  cases u <;> exact h

/-- A value with a limited exponent is finite. -/
theorem ExponentAtMost.isFinite {limit : Int} {u : UnpackedFloat} (h : ExponentAtMost limit u) :
    u.isFinite = true := by
  cases u with
  | zero _ => rfl
  | finite _ _ _ _ => rfl
  | infinity _ => exact h.elim
  | notANumber => exact h.elim

/-- A value with a limited exponent is not infinite. -/
theorem ExponentAtMost.isInf {limit : Int} {u : UnpackedFloat} (h : ExponentAtMost limit u) :
    u.isInf = false := by
  cases u with
  | zero _ => rfl
  | finite _ _ _ _ => rfl
  | infinity _ => exact h.elim
  | notANumber => exact h.elim

/-- Rounding raises the exponent by the places shifted out and one for a carry at most. -/
theorem exponentAtMost_round (sign : Sign) (m : Nat) (e : Int) (accuracy : Accuracy) :
    ExponentAtMost (e + places m e + 1) (roundWithAccuracy Format.binary64 sign m e accuracy) := by
  obtain ⟨-, hvalue⟩ | ⟨-, _, hvalue⟩ | ⟨-, _, hvalue⟩ := roundWithAccuracy_cases sign m e accuracy
  · rw [hvalue]
    trivial
  · rw [hvalue]
    change e + places m e ≤ _
    omega
  · rw [hvalue]
    exact le_refl _

/-- The bits of a value below the halfway point behind the greatest double. -/
theorem bits_lt_of_lt {m bits power unit : Nat} (hwide : 2 ^ bits ≤ m)
    (hbelow : m * 2 ^ power < (2 ^ 54 - 1) * 2 ^ (970 + unit)) : bits + power < 1024 + unit := by
  refine (Nat.pow_lt_pow_iff_right (show 1 < 2 by decide)).mp ?_
  calc 2 ^ (bits + power) = 2 ^ bits * 2 ^ power := Nat.pow_add ..
    _ ≤ m * 2 ^ power := Nat.mul_le_mul_right _ hwide
    _ < (2 ^ 54 - 1) * 2 ^ (970 + unit) := hbelow
    _ ≤ 2 ^ 54 * 2 ^ (970 + unit) := Nat.mul_le_mul_right _ (by norm_num)
    _ = 2 ^ (1024 + unit) := by rw [← Nat.pow_add]; congr 1; omega

/-- An exact value below the halfway point behind the greatest double does not round to more
than the greatest double. The value is given in parts of `2 ^ unit`. -/
theorem exponentAtMost_round_of_lt {m unit : Nat} {e : Int} (sign : Sign) (hhigh : e ≤ 971)
    (hlow : 0 ≤ e + unit)
    (hbelow : m * 2 ^ (e + unit).toNat < (2 ^ 54 - 1) * 2 ^ (970 + unit)) :
    ExponentAtMost 971 (roundWithAccuracy Format.binary64 sign m e .exact) := by
  have hsize : m ≠ 0 → (m.log2 : Int) + e ≤ 1023 := by
    intro hpositive
    have := bits_lt_of_lt (Nat.log2_self_le hpositive) hbelow
    omega
  have hhalf := rounded_le_half m (places m e)
  have hpositive : roundedTo m e .exact ≠ 0 → m ≠ 0 := by
    rintro hsome rfl
    have := Nat.mul_le_mul_right (2 ^ places 0 e) (Nat.pos_of_ne_zero hsome)
    have := Nat.two_pow_pos (places 0 e)
    unfold roundedTo at *
    omega
  obtain ⟨-, hvalue⟩ | ⟨-, hsome, hvalue⟩ | ⟨hfull, _, hvalue⟩ :=
    roundWithAccuracy_cases sign m e .exact
  · rw [hvalue]
    trivial
  · rw [hvalue]
    change e + places m e ≤ 971
    have := hsize (hpositive hsome.ne')
    unfold places
    omega
  · rw [hvalue]
    change e + places m e + 1 ≤ 971
    have := hsize (hpositive (by omega))
    by_contra hmore
    have htop : e + places m e = 971 := by
      unfold places at hmore ⊢
      omega
    -- Rounded up to a power of two the value would reach the halfway point.
    have hreached : (2 ^ 54 - 1) * 2 ^ places m e ≤ 2 * m := by
      change 2 * (roundedTo m e .exact * _) ≤ _ at hhalf
      rw [hfull] at hhalf
      omega
    have hpower : places m e + (e + unit).toNat = 971 + unit := by omega
    have habove : (2 ^ 54 - 1) * 2 ^ (971 + unit) ≤ 2 * (m * 2 ^ (e + unit).toNat) := by
      calc (2 ^ 54 - 1) * 2 ^ (971 + unit)
          = (2 ^ 54 - 1) * 2 ^ places m e * 2 ^ (e + unit).toNat := by
            rw [← hpower, Nat.pow_add, Nat.mul_assoc]
        _ ≤ 2 * m * 2 ^ (e + unit).toNat := Nat.mul_le_mul_right _ hreached
        _ = 2 * (m * 2 ^ (e + unit).toNat) := Nat.mul_assoc ..
    have hdouble : 2 ^ (971 + unit) = 2 * 2 ^ (970 + unit) := by
      rw [show 971 + unit = 970 + unit + 1 by omega, Nat.pow_succ, Nat.mul_comm]
    rw [hdouble] at habove
    omega

end QuerySurface.Decimal
