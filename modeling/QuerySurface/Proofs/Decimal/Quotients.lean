import Mathlib.Tactic.Ring
import QuerySurface.Proofs.Decimal.Packing

/-!
# Words and quotients as doubles

A word becomes a double that is at most the word rounded half up to 53 bits, and such a double
has a small exponent. Dividing by a double that is at least one keeps an exponent low.
-/

namespace QuerySurface.Decimal

open Float.Model Float.Model.UnpackedFloat

/-! ## Rounding half up -/

/-- A number rounded to 53 bits, half a place upwards. -/
def halfUp (n : Nat) : Nat :=
  (2 * n + 2 ^ (n.log2 - 52)) / 2 ^ (n.log2 - 52 + 1) * 2 ^ (n.log2 - 52)

/-- Rounding half up keeps the first bit. -/
theorem power_le_halfUp {n : Nat} (hwide : 52 < n.log2) :
    2 ^ 52 * 2 ^ (n.log2 - 52) ≤ halfUp n := by
  have hpositive : n ≠ 0 := by
    rintro rfl
    exact absurd hwide (by decide)
  have hsize := Nat.log2_self_le hpositive
  have hsplit : 2 ^ n.log2 = 2 ^ 52 * 2 ^ (n.log2 - 52) := by
    rw [← Nat.pow_add]
    congr 1
    omega
  refine Nat.mul_le_mul_right _ ?_
  rw [Nat.le_div_iff_mul_le (Nat.two_pow_pos _), Nat.pow_succ]
  omega

/-- Numbers of at most 53 bits need no rounding, and numbers above them round to more. -/
theorem le_halfUp_of_lt {n bound : Nat} (hsmall : n < 2 ^ 53) (hle : n ≤ bound) :
    n ≤ halfUp bound := by
  by_cases hnarrow : bound.log2 ≤ 52
  · have hnone : bound.log2 - 52 = 0 := by omega
    unfold halfUp
    rw [hnone]
    simp only [pow_zero, Nat.mul_one, Nat.zero_add, pow_one]
    omega
  · have hleast : 2 ≤ 2 ^ (bound.log2 - 52) :=
      Nat.le_self_pow (by omega : bound.log2 - 52 ≠ 0) 2
    calc n ≤ 2 ^ 52 * 2 := by omega
      _ ≤ 2 ^ 52 * 2 ^ (bound.log2 - 52) := Nat.mul_le_mul_left _ hleast
      _ ≤ halfUp bound := power_le_halfUp (by omega)

/-- What nearest rounding makes of a longer number is not above what half-up rounding makes of
any number that is not less. -/
theorem le_halfUp {n bound rounded : Nat} (hle : n ≤ bound) (hfull : rounded ≤ 2 ^ 53)
    (hhalf : 2 * (rounded * 2 ^ (n.log2 - 52)) ≤ 2 * n + 2 ^ (n.log2 - 52))
    (hwide : 52 < n.log2) : rounded * 2 ^ (n.log2 - 52) ≤ halfUp bound := by
  have hpositive : n ≠ 0 := by
    rintro rfl
    exact absurd hwide (by decide)
  have hlonger : n.log2 ≤ bound.log2 :=
    (Nat.le_log2 (by omega)).mpr ((Nat.log2_self_le hpositive).trans hle)
  obtain hsame | hfurther := hlonger.eq_or_lt
  · unfold halfUp
    rw [← hsame]
    refine Nat.mul_le_mul_right _ ?_
    rw [Nat.le_div_iff_mul_le (Nat.two_pow_pos _), Nat.pow_succ]
    calc rounded * (2 ^ (n.log2 - 52) * 2) = 2 * (rounded * 2 ^ (n.log2 - 52)) := by ring
      _ ≤ 2 * bound + 2 ^ (n.log2 - 52) := by omega
  · calc rounded * 2 ^ (n.log2 - 52) ≤ 2 ^ 53 * 2 ^ (n.log2 - 52) := Nat.mul_le_mul_right _ hfull
      _ = 2 ^ 52 * 2 ^ (n.log2 - 52 + 1) := by ring
      _ ≤ 2 ^ 52 * 2 ^ (bound.log2 - 52) :=
        Nat.mul_le_mul_left _ (Nat.pow_le_pow_right (by decide) (by omega))
      _ ≤ halfUp bound := power_le_halfUp (by omega)

/-- Nothing is rounded where nothing is cut. -/
theorem roundedTo_of_places_eq_zero {m : Nat} {e : Int} (hnone : places m e = 0) :
    roundedTo m e .exact = m := by
  have hupper := rounded_le_half m 0
  have hlower := le_roundedMantissa (ExtendedMantissa.ofMantissaAndAccuracy m .exact >>> 0)
  rw [shifted_mantissa, ofMantissaAndAccuracy_mantissa] at hlower
  unfold roundedTo
  rw [hnone]
  simp only [pow_zero, Nat.mul_one, Nat.div_one] at hupper hlower
  omega

/-- A rounded mantissa of 53 bits is packed as it is, or as half of it with the next exponent:
its value in parts of `2 ^ unit` stays. -/
theorem unpack_pack_round (sign : Sign) {m : Nat} {e : Int} (accuracy : Accuracy)
    (hwide : 2 ^ 52 ≤ roundedTo m e accuracy) (hlow : -1074 ≤ e + places m e)
    (hhigh : e + places m e < 971) :
    ∃ kept m' e' hpos, (Float.Model.pack
        (roundWithAccuracy Format.binary64 sign m e accuracy)).unpack = .finite kept m' e' hpos ∧
      2 ^ 52 ≤ m' ∧ e + places m e ≤ e' ∧ e' ≤ e + places m e + 1 ∧
      ∀ unit : Nat, 0 ≤ e + places m e + unit →
        m' * 2 ^ (e' + unit).toNat =
          roundedTo m e accuracy * 2 ^ (e + places m e + unit).toNat := by
  obtain ⟨hzero, -⟩ | ⟨hsmall, hpositive, hresult⟩ | ⟨hfull, hpositive, hresult⟩ :=
    roundWithAccuracy_cases sign m e accuracy
  · omega
  · rw [hresult]
    obtain ⟨kept, hunpacked⟩ := unpack_pack_normal sign hpositive hwide hsmall hlow (by omega)
    exact ⟨kept, _, _, _, hunpacked, hwide, by omega, by omega, fun _ _ => rfl⟩
  · rw [hresult]
    obtain ⟨kept, hunpacked⟩ :=
      unpack_pack_normal sign hpositive (le_refl (2 ^ 52)) (by decide)
        (show -1074 ≤ e + places m e + 1 by omega) (by omega)
    refine ⟨kept, _, _, _, hunpacked, le_refl _, by omega, by omega, fun unit habove => ?_⟩
    rw [hfull, ← Nat.pow_add, ← Nat.pow_add]
    congr 1
    omega

/-! ## Words -/

/-- A value of 53 bits with a small exponent that is at most the word rounded half up. -/
def RoundsWord (n : Nat) (u : UnpackedFloat) : Prop :=
  ∃ sign m e hpos, u = .finite sign m e hpos ∧ 2 ^ 52 ≤ m ∧ -52 ≤ e ∧ e ≤ 12 ∧
    ∀ bound, n ≤ bound → m * 2 ^ (e + 52).toNat ≤ halfUp bound * 2 ^ 52

/-- A natural number is made a double by rounding it, first widened to 53 bits. -/
theorem ofNat_eq_round {n : Nat} (hpositive : 0 < n) :
    UnpackedFloat.ofNat Format.binary64 n =
      roundWithAccuracy Format.binary64 .positive (n * 2 ^ (52 - n.log2))
        (-(52 - n.log2 : Nat)) .exact := by
  have htarget : Format.binary64.targetExponent (totalExponent n 0) =
      max ((n.log2 : Int) - 52) (-1074) := by
    rw [targetExponent_eq, totalExponent]
    omega
  have hshift : (-max ((n.log2 : Int) - 52) (-1074)).toNat = 52 - n.log2 := by omega
  unfold UnpackedFloat.ofNat UnpackedFloat.ofInt UnpackedFloat.normalize
  rw [Int.compare_eq_gt.mpr (by omega)]
  simp only [Int.toNat_natCast, UnpackedFloat.round, htarget, decreaseExponent, zero_sub, hshift,
    Nat.shiftLeft_eq]

/-- A word of at most 53 bits is kept. -/
theorem roundsWord_of_narrow {n : Nat} (hpositive : 0 < n) (hnarrow : n.log2 ≤ 52) :
    RoundsWord n (Float.Model.pack (roundWithAccuracy Format.binary64 .positive
      (n * 2 ^ (52 - n.log2)) (-(52 - n.log2 : Nat)) .exact)).unpack := by
  have hfirst := Nat.log2_self_le (Nat.ne_of_gt hpositive)
  have hwide : 2 ^ 52 ≤ n * 2 ^ (52 - n.log2) := by
    calc 2 ^ 52 = 2 ^ n.log2 * 2 ^ (52 - n.log2) := by rw [← Nat.pow_add]; congr 1; omega
      _ ≤ n * 2 ^ (52 - n.log2) := Nat.mul_le_mul_right _ hfirst
  have hfull : n * 2 ^ (52 - n.log2) < 2 ^ 53 := by
    calc n * 2 ^ (52 - n.log2) < 2 ^ (n.log2 + 1) * 2 ^ (52 - n.log2) :=
          Nat.mul_lt_mul_of_pos_right Nat.lt_log2_self (Nat.two_pow_pos _)
      _ = 2 ^ 53 := by rw [← Nat.pow_add]; congr 1; omega
  have hnone := places_eq_zero hfull (show -1074 ≤ (-(52 - n.log2 : Nat) : Int) by omega)
  have hsame := roundedTo_of_places_eq_zero hnone
  obtain ⟨kept, m, e, hpos, hunpacked, hnormal, hlow, hhigh, hvalue⟩ :=
    unpack_pack_round .positive .exact (hsame ▸ hwide) (by omega) (by omega)
  refine ⟨kept, m, e, hpos, hunpacked, hnormal, by omega, by omega, fun bound habove => ?_⟩
  have hsmall : n < 2 ^ 53 :=
    lt_of_lt_of_le Nat.lt_log2_self (Nat.pow_le_pow_right (by decide) (by omega))
  rw [hsame, hnone] at hvalue
  calc m * 2 ^ (e + 52).toNat = n * 2 ^ (52 - n.log2) * 2 ^ n.log2 := by
        refine (hvalue 52 (by omega)).trans ?_
        congr 2
        omega
    _ = n * 2 ^ 52 := by rw [Nat.mul_assoc, ← Nat.pow_add]; congr 2; omega
    _ ≤ halfUp bound * 2 ^ 52 := Nat.mul_le_mul_right _ (le_halfUp_of_lt hsmall habove)

/-- A longer word loses its last places. -/
theorem roundsWord_of_wide {n : Nat} (hpositive : 0 < n) (hword : n < 2 ^ 64)
    (hlong : 52 < n.log2) :
    RoundsWord n (Float.Model.pack
      (roundWithAccuracy Format.binary64 .positive n 0 .exact)).unpack := by
  have hshort : n.log2 < 64 := (Nat.log2_lt (Nat.ne_of_gt hpositive)).mpr hword
  have hcut : places n 0 = n.log2 - 52 := by
    unfold places
    omega
  have hlower :=
    le_roundedMantissa (ExtendedMantissa.ofMantissaAndAccuracy n .exact >>> places n 0)
  rw [shifted_mantissa, ofMantissaAndAccuracy_mantissa] at hlower
  have hwide : 2 ^ 52 ≤ roundedTo n 0 .exact := by
    refine le_trans ?_ hlower
    rw [Nat.le_div_iff_mul_le (Nat.two_pow_pos _), ← Nat.pow_add]
    exact (Nat.pow_le_pow_right (by decide) (by omega)).trans
      (Nat.log2_self_le (Nat.ne_of_gt hpositive))
  obtain ⟨kept, m, e, hpos, hunpacked, hnormal, hlow, hhigh, hvalue⟩ :=
    unpack_pack_round .positive .exact (e := 0) hwide (by omega) (by omega)
  refine ⟨kept, m, e, hpos, hunpacked, hnormal, by omega, by omega, fun bound habove => ?_⟩
  have hhalf := rounded_le_half n (places n 0)
  have hnearest := le_halfUp habove (roundedTo_le n 0 .exact) (hcut ▸ hhalf) (by omega)
  calc m * 2 ^ (e + 52).toNat = roundedTo n 0 .exact * 2 ^ (n.log2 - 52 + 52) := by
        rw [← hcut]
        refine (hvalue 52 (by omega)).trans ?_
        congr 2
        omega
    _ = roundedTo n 0 .exact * 2 ^ (n.log2 - 52) * 2 ^ 52 := by rw [Nat.pow_add, Nat.mul_assoc]
    _ ≤ halfUp bound * 2 ^ 52 := Nat.mul_le_mul_right _ hnearest

/-- A word other than zero becomes a double of 53 bits that is at most the word rounded half
up. -/
theorem unpack_ofNat {n : Nat} (hpositive : 0 < n) (hword : n < 2 ^ 64) :
    RoundsWord n (Float.Model.ofNat n).unpack := by
  change RoundsWord n (Float.Model.pack (UnpackedFloat.ofNat Format.binary64 n)).unpack
  rw [ofNat_eq_round hpositive]
  by_cases hnarrow : n.log2 ≤ 52
  · exact roundsWord_of_narrow hpositive hnarrow
  · have hnone : 52 - n.log2 = 0 := by omega
    rw [hnone, pow_zero, Nat.mul_one]
    exact roundsWord_of_wide hpositive hword (by omega)

/-! ## Quotients -/

/-- A mantissa that is unpacked has at most 53 bits. -/
theorem unpack_mantissa_lt {bits : BitVec Format.binary64.numBits} {sign : Sign} {m : Nat} {e : Int}
    {hpos : 0 < m} (h : UnpackedFloat.unpack Format.binary64 bits = .finite sign m e hpos) :
    m < 2 ^ 53 := by
  have hfield : (unpackMantissa bits).toNat < 2 ^ 52 := (unpackMantissa bits).isLt
  have hordinary : (unpackExponent bits).toNat ≠ 2047 := fun hfull => by
    have hspecial := unpack_full hfull
    rw [h] at hspecial
    cases hspecial
  by_cases hempty : (unpackExponent bits).toNat = 0
  · obtain ⟨_, hvalue⟩ | ⟨_, _, _, _, hvalue, hmantissa, -⟩ := unpack_empty hempty
    · rw [h] at hvalue
      cases hvalue
    · rw [h] at hvalue
      cases hvalue
      omega
  · obtain ⟨_, _, _, _, hvalue, hmantissa, -⟩ := unpack_normal hempty hordinary
    rw [h] at hvalue
    cases hvalue
    omega

/-- Multiplying by a power of two adds at most as many bits as its exponent. -/
theorem log2_mul_power_le (m count : Nat) : (m * 2 ^ count).log2 ≤ m.log2 + count := by
  by_cases hzero : m = 0
  · simp [hzero]
  · have hpositive : m * 2 ^ count ≠ 0 := Nat.mul_ne_zero hzero (Nat.two_pow_pos count).ne'
    have hbelow : m * 2 ^ count < 2 ^ (m.log2 + count + 1) := by
      calc m * 2 ^ count < 2 ^ (m.log2 + 1) * 2 ^ count :=
            Nat.mul_lt_mul_of_pos_right Nat.lt_log2_self (Nat.two_pow_pos _)
        _ = 2 ^ (m.log2 + count + 1) := by rw [← Nat.pow_add]; congr 1; omega
    have := (Nat.log2_lt hpositive).mpr hbelow
    omega

/-- Bits of a quotient by a mantissa of 53 bits. -/
theorem log2_div_le {a m : Nat} (hwide : 2 ^ 52 ≤ m) : (a / m).log2 ≤ a.log2 - 52 := by
  by_cases hzero : a / m = 0
  · simp [hzero]
  · have hpositive : a ≠ 0 := by
      rintro rfl
      exact hzero (Nat.zero_div m)
    have hproduct : 2 ^ ((a / m).log2 + 52) ≤ a := by
      calc 2 ^ ((a / m).log2 + 52) = 2 ^ (a / m).log2 * 2 ^ 52 := Nat.pow_add ..
        _ ≤ a / m * m := Nat.mul_le_mul (Nat.log2_self_le hzero) hwide
        _ ≤ a := Nat.div_mul_le_self a m
    have := (Nat.le_log2 hpositive).mpr hproduct
    omega

/-- Dividing by a mantissa of 53 bits lowers the exponent by that of the divisor, up to one place
for the quotient of the mantissas and one for rounding. -/
theorem exponentAtMost_div {limit e : Int} {u : UnpackedFloat} {m : Nat}
    (h : ExponentAtMost limit u)
    (hnarrow : ∀ sign m e hpos, u = .finite sign m e hpos → m < 2 ^ 53)
    (sign : Sign) (hpos : 0 < m) (hwide : 2 ^ 52 ≤ m) :
    ExponentAtMost (max (limit - e - 52) (-1074) + 1)
      (UnpackedFloat.div Format.binary64 u (.finite sign m e hpos)) := by
  cases u with
  | infinity _ => exact h.elim
  | notANumber => exact h.elim
  | zero _ => trivial
  | finite sign₁ m₁ e₁ hpos₁ =>
    have hbelow : e₁ ≤ limit := h
    have hbits := log2_le_of_lt (hnarrow _ _ _ _ rfl)
    have hdivisor : 52 ≤ m.log2 := (Nat.le_log2 (by omega)).mpr hwide
    change ExponentAtMost _ (roundWithAccuracy Format.binary64 _ _ _ _)
    set target := min (e₁ - e)
      (Format.binary64.targetExponent (totalExponent m₁ e₁ - totalExponent m e)) with hchosen
    have hceiling : target ≤ max (e₁ - e - 53) (-1074) := by
      rw [hchosen, targetExponent_eq, totalExponent, totalExponent]
      omega
    have hshift : target ≤ e₁ - e := min_le_left _ _
    refine (exponentAtMost_round _ _ _ _).mono ?_
    have hquotient := log2_div_le (a := m₁ <<< (e₁ - e - target).toNat) hwide
    have hlength := log2_mul_power_le m₁ (e₁ - e - target).toNat
    rw [← Nat.shiftLeft_eq] at hlength
    unfold places
    omega

end QuerySurface.Decimal
