import Mathlib.Tactic.Ring
import QuerySurface.Proofs.Decimal.Packing

/-!
# Digits of doubles

The decimal that is written for a finite double lies inside the interval of the double. Apart
from the greatest double, the digits written therefore stay below the point halfway between
the two greatest doubles.
-/

namespace QuerySurface.Decimal

/-- A decimal that is at most a fraction. -/
def Scientific.AtMost (numerator denominator : Nat) (decimal : Scientific) : Prop :=
  decimal.digits * 10 ^ decimal.exponent.toNat * denominator ≤
    numerator * 10 ^ (-decimal.exponent).toNat

/-- A decimal that is at most a fraction is at most every greater one. -/
theorem Scientific.AtMost.mono {a b c d : Nat} {decimal : Scientific} (h : decimal.AtMost a b)
    (hpositive : 0 < b) (hle : a * d ≤ c * b) : decimal.AtMost c d := by
  unfold Scientific.AtMost at h ⊢
  refine Nat.le_of_mul_le_mul_right ?_ hpositive
  calc decimal.digits * 10 ^ decimal.exponent.toNat * d * b
      = decimal.digits * 10 ^ decimal.exponent.toNat * b * d := Nat.mul_right_comm ..
    _ ≤ a * 10 ^ (-decimal.exponent).toNat * d := Nat.mul_le_mul_right _ h
    _ = a * d * 10 ^ (-decimal.exponent).toNat := Nat.mul_right_comm ..
    _ ≤ c * b * 10 ^ (-decimal.exponent).toNat := Nat.mul_le_mul_right _ hle
    _ = c * 10 ^ (-decimal.exponent).toNat * b := Nat.mul_right_comm ..

/-- Fewer digits at the same exponent stay below the same fraction. -/
theorem Scientific.AtMost.of_le {a b digits : Nat} {decimal : Scientific} (h : decimal.AtMost a b)
    (hle : digits ≤ decimal.digits) : Scientific.AtMost a b ⟨digits, decimal.exponent⟩ :=
  (Nat.mul_le_mul_right b (Nat.mul_le_mul_right _ hle)).trans h

/-- What a decimal with no negative exponent that is at most a natural number says. -/
theorem Scientific.AtMost.le {bound digits : Nat} {exponent : Int}
    (h : Scientific.AtMost bound 1 ⟨digits, exponent⟩) (hpositive : 0 ≤ exponent) :
    digits * 10 ^ exponent.toNat ≤ bound := by
  have hnone : (-exponent).toNat = 0 := by omega
  unfold Scientific.AtMost at h
  rwa [hnone, pow_zero, Nat.mul_one, Nat.mul_one] at h

/-- Moving a zero into the exponent changes nothing. -/
theorem Scientific.atMost_shift {a b digits : Nat} {exponent : Int} :
    Scientific.AtMost a b ⟨digits * 10, exponent⟩ ↔
      Scientific.AtMost a b ⟨digits, exponent + 1⟩ := by
  simp only [Scientific.AtMost]
  by_cases hnegative : exponent < 0
  · have hhere : exponent.toNat = 0 := by omega
    have hthere : (exponent + 1).toNat = 0 := by omega
    have hpower : (-exponent).toNat = (-(exponent + 1)).toNat + 1 := by omega
    have hleft : digits * 10 * 10 ^ 0 * b = digits * 10 ^ 0 * b * 10 := by ring
    rw [hhere, hthere, hpower, Nat.pow_succ, hleft, ← Nat.mul_assoc]
    exact Nat.mul_le_mul_right_iff (by decide)
  · have hpower : (exponent + 1).toNat = exponent.toNat + 1 := by omega
    have hhere : (-exponent).toNat = 0 := by omega
    have hthere : (-(exponent + 1)).toNat = 0 := by omega
    rw [hhere, hthere, hpower, Nat.pow_succ, Nat.mul_assoc digits, Nat.mul_comm 10]

/-- Moving zeros into the exponent changes nothing. -/
theorem Scientific.atMost_mul_power {a b digits count : Nat} {exponent : Int} :
    Scientific.AtMost a b ⟨digits * 10 ^ count, exponent⟩ ↔
      Scientific.AtMost a b ⟨digits, exponent + count⟩ := by
  induction count generalizing exponent with
  | zero => simp
  | succ count ih =>
    rw [Nat.pow_succ, ← Nat.mul_assoc, Scientific.atMost_shift, ih]
    have hsum : exponent + 1 + count = exponent + (count + 1 : Nat) := by omega
    rw [hsum]

/-- Taking zeros off the end of the digits keeps a decimal below its fraction. -/
theorem Scientific.AtMost.normalize {a b : Nat} {decimal : Scientific} (h : decimal.AtMost a b) :
    decimal.normalize.AtMost a b := by
  have hsteps : ∀ fuel digits exponent, Scientific.AtMost a b ⟨digits, exponent⟩ →
      (Scientific.normalize.go digits exponent fuel).AtMost a b := by
    intro fuel
    induction fuel with
    | zero => exact fun _ _ h => h
    | succ fuel ih =>
      intro digits exponent h
      rw [Scientific.normalize.go]
      split_ifs with hzero
      · refine ih _ _ (Scientific.atMost_shift.mp ?_)
        rwa [Nat.div_mul_cancel (Nat.dvd_of_mod_eq_zero hzero.2)]
      · exact h
  exact hsteps _ _ _ h

namespace Interval

/-- A candidate inside an interval is not above its upper end. -/
theorem atMost_of_holds {interval : Interval} {candidate : Nat} {exponent : Int}
    (h : interval.holds candidate exponent = true) :
    Scientific.AtMost interval.high interval.denominator ⟨candidate, exponent⟩ := by
  simp only [Interval.holds] at h
  unfold Scientific.AtMost
  split_ifs at h <;> rw [Bool.and_eq_true, decide_eq_true_eq, decide_eq_true_eq] at h
  · exact h.2
  · exact Nat.le_of_lt h.2

/-- The candidate that is picked at an exponent lies inside the interval. -/
theorem holds_of_onGrid {interval : Interval} {exponent : Int} {digits : Nat}
    (h : interval.onGrid exponent = some digits) : interval.holds digits exponent = true := by
  simp only [Interval.onGrid] at h
  split at h <;> rename_i hbelow habove
  · split_ifs at h
    · cases h
      exact hbelow
    · cases h
      exact habove
  · cases h
    exact hbelow
  · cases h
    exact habove
  · cases h

/-- The decimal that is found in an interval is not above its upper end. -/
theorem atMost_of_shortestFrom {interval : Interval} {exponent : Int} {count : Nat}
    {decimal : Scientific} (h : interval.shortestFrom exponent count = some decimal) :
    decimal.AtMost interval.high interval.denominator := by
  induction count generalizing exponent with
  | zero => cases h
  | succ count ih =>
    rw [Interval.shortestFrom] at h
    split at h
    · rename_i digits hfound
      split_ifs at h
      · exact ih h
      · cases h
        exact atMost_of_holds (holds_of_onGrid hfound)
    · exact ih h

end Interval

/-- The decimal written for `m · 2 ^ q` is not above its interval. -/
theorem atMost_shortest (m : Nat) (q : Int) (narrowBelow : Bool) :
    (shortest m q narrowBelow).AtMost ((4 * m + 2) * 2 ^ (q - 2).toNat) (2 ^ (2 - q).toNat) := by
  unfold shortest
  simp only
  split
  · rename_i decimal hfound
    exact (Interval.atMost_of_shortestFrom hfound).normalize
  · simp [Scientific.AtMost]

/-- The digits of the greatest double. -/
def greatestDigits : Scientific :=
  ⟨17976931348623157, 292⟩

/-- The greatest double is written with the greatest digits. -/
theorem shortest_greatest : shortest (2 ^ 53 - 1) 971 false = greatestDigits := by
  decide +kernel

/-- A bound that is multiplied by a power of two stays one with more powers of two on its side. -/
theorem mul_two_pow_le {a b i j top : Nat} (h : a ≤ b * 2 ^ i) (hle : i + j ≤ top) :
    a * 2 ^ j ≤ b * 2 ^ top := by
  calc a * 2 ^ j ≤ b * 2 ^ i * 2 ^ j := Nat.mul_le_mul_right _ h
    _ = b * 2 ^ (i + j) := by rw [Nat.mul_assoc, ← Nat.pow_add]
    _ ≤ b * 2 ^ top := Nat.mul_le_mul_left _ (Nat.pow_le_pow_right (by decide) hle)

/-- The interval of a finite double other than the greatest ends below the ceiling. -/
theorem high_le_ceiling {m : Nat} {q : Int} (hnarrow : m < 2 ^ 53) (hhigh : q ≤ 971)
    (hother : q = 971 → m ≠ 2 ^ 53 - 1) :
    (4 * m + 2) * 2 ^ (q - 2).toNat ≤ ceiling := by
  by_cases htop : q = 971
  · have := hother htop
    exact mul_two_pow_le (i := 1) (by omega) (by omega)
  · exact mul_two_pow_le (i := 2) (by omega) (by omega)

/-- The digits of a finite double, given by mantissa and exponent, stay below the ceiling unless
it is the greatest one. -/
theorem shortest_below {m : Nat} {q : Int} {narrowBelow : Bool} (hnarrow : m < 2 ^ 53)
    (hhigh : q ≤ 971) (hsame : q = 971 → m = 2 ^ 53 - 1 → narrowBelow = false) :
    (shortest m q narrowBelow).AtMost ceiling 1 ∨ shortest m q narrowBelow = greatestDigits := by
  by_cases hgreatest : q = 971 ∧ m = 2 ^ 53 - 1
  · obtain ⟨rfl, rfl⟩ := hgreatest
    right
    rw [hsame rfl rfl, shortest_greatest]
  · left
    refine (atMost_shortest m q narrowBelow).mono (Nat.two_pow_pos _) ?_
    rw [Nat.mul_one]
    exact (high_le_ceiling hnarrow hhigh fun htop hother => hgreatest ⟨htop, hother⟩).trans
      (Nat.le_mul_of_pos_right _ (Nat.two_pow_pos _))

/-! ## Shapes -/

/-- The exponent field is the eleven bits above the 52 of the mantissa. -/
theorem toNat_unpackExponent (bits : BitVec Float.Model.Format.binary64.numBits) :
    (Float.Model.UnpackedFloat.unpackExponent bits).toNat = bits.toNat / 2 ^ 52 % 2 ^ 11 := by
  simp [Float.Model.UnpackedFloat.unpackExponent, Nat.shiftRight_eq_div_pow]

/-- The exponent field of a finite double is not full. -/
theorem exponentField_of_isFinite {x : Float} (hfinite : x.isFinite = true) :
    x.toBits.toNat / 2 ^ 52 % 2 ^ 11 ≠ 2047 := by
  intro hspecial
  have hfull : (@Float.Model.UnpackedFloat.unpackExponent Float.Model.Format.binary64
      x.toModel.toBits.toBitVec).toNat = 2047 := by
    rw [toNat_unpackExponent]
    exact hspecial
  exact Bool.false_ne_true ((unpack_full hfull).symm.trans hfinite)

/-- A finite double has digits, which stay below the ceiling unless it is the greatest. -/
theorem shape_of_isFinite {x : Float} (hfinite : x.isFinite = true) :
    ∃ negative magnitude, shape x = .finite negative magnitude ∧
      (magnitude.AtMost ceiling 1 ∨ magnitude = greatestDigits) := by
  have hordinary := exponentField_of_isFinite hfinite
  have hexponent : x.toBits.toNat / 2 ^ 52 % 2 ^ 11 < 2 ^ 11 := Nat.mod_lt _ (by decide)
  have hfraction : x.toBits.toNat % 2 ^ 52 < 2 ^ 52 := Nat.mod_lt _ (by decide)
  unfold shape
  simp only [Nat.pow_eq]
  generalize x.toBits.toNat / 2 ^ 52 % 2 ^ 11 = e at hordinary hexponent ⊢
  generalize x.toBits.toNat % 2 ^ 52 = f at hfraction ⊢
  rw [if_neg (by simpa using hordinary)]
  split_ifs with hnone hlow
  · exact ⟨_, _, rfl, .inl (by simp [Scientific.AtMost])⟩
  · exact ⟨_, _, rfl, shortest_below (by omega) (by decide) fun htop => absurd htop (by decide)⟩
  · refine ⟨_, _, rfl, shortest_below (by omega) (by omega) fun _ hfull => ?_⟩
    have hsome : f ≠ 0 := by omega
    simp [hsome]

end QuerySurface.Decimal
