import QuerySurface.Json.Numeral
import QuerySurface.Proofs.Decimal.Quotients
import QuerySurface.Proofs.Decimal.Shapes

/-!
# Powers of ten on doubles

A numeral is read by one product with a power of ten or by quotients of such. Every result
is a finite double, and there is a result for every value that is at most halfway between
the two greatest doubles, although the word in front and the power are both rounded first.
-/

namespace QuerySurface.Json

open Decimal Float.Model Float.Model.UnpackedFloat

/-- A finite double whose exponent is not above a limit. -/
def Low (limit : Int) (x : Float) : Prop :=
  ExponentAtMost limit x.toModel.unpack

/-- A limit may be raised. -/
theorem Low.mono {low high : Int} {x : Float} (h : Low low x) (hle : low ≤ high) : Low high x :=
  ExponentAtMost.mono h hle

/-- A double with a limited exponent is finite. -/
theorem Low.isFinite {limit : Int} {x : Float} (h : Low limit x) : x.isFinite = true :=
  ExponentAtMost.isFinite h

/-- A changed sign keeps a limit in the range of doubles. -/
theorem Low.neg {limit : Int} {x : Float} (h : Low limit x) (hlow : -1074 ≤ limit)
    (hhigh : limit ≤ 971) : Low limit (-x) :=
  ExponentAtMost.pack (ExponentAtMost.neg h) hlow hhigh

/-- A finite double has the exponent of the greatest one at most. -/
theorem low_of_isFinite {x : Float} (h : x.isFinite = true) : Low 971 x := by
  have hfield : (@unpackExponent Format.binary64 x.toModel.toBits.toBitVec).toNat < 2048 :=
    BitVec.isLt _
  have hordinary := exponentField_of_isFinite h
  rw [toNat_unpackExponent] at hfield
  have hfits : (@unpackExponent Format.binary64 x.toModel.toBits.toBitVec).toNat < 2047 := by
    rw [toNat_unpackExponent]
    change x.toBits.toNat / 2 ^ 52 % 2 ^ 11 < 2048 at hfield
    change x.toBits.toNat / 2 ^ 52 % 2 ^ 11 < 2047
    omega
  exact exponentAtMost_unpack (by decide) (by omega) hfits

/-! ## Words -/

/-- A word is made a double as a natural number is. -/
theorem toModel_toFloat {n : Nat} (hword : n < 2 ^ 64) :
    n.toUInt64.toFloat.toModel = Float.Model.ofNat n := by
  have hsame : n.toUInt64.toNat = n := UInt64.toNat_ofNat_of_lt' hword
  change Float.Model.ofNat n.toUInt64.toNat = _
  rw [hsame]

/-- The limit of words in powers of two. -/
theorem lt_of_le_wordLimit {n : Nat} (h : n ≤ wordLimit) : n < 2 ^ 64 := by
  have : wordLimit = 2 ^ 64 - 1 := rfl
  omega

/-- A word becomes a double whose exponent is twelve at most. -/
theorem low_toFloat {n : Nat} (hword : n ≤ wordLimit) : Low 12 n.toUInt64.toFloat := by
  unfold Low
  rw [toModel_toFloat (lt_of_le_wordLimit hword)]
  by_cases hzero : n = 0
  · subst hzero
    trivial
  · obtain ⟨sign, m, e, hpos, hunpacked, -, -, hhigh, -⟩ :=
      unpack_ofNat (Nat.pos_of_ne_zero hzero) (lt_of_le_wordLimit hword)
    rw [hunpacked]
    exact hhigh

/-! ## Powers of ten -/

/-- Whether ten to a power is a double of 53 bits and of about its size, and whose product with
the greatest word that keeps under the ceiling does not overflow. -/
def hasRoom (exponent : Nat) : Bool :=
  match (powerOfTen exponent).toModel.unpack with
  | .finite _ m e _ =>
    2 ^ 52 ≤ m && 3 * exponent ≤ e + 52 &&
      halfUp (min (ceiling / 10 ^ exponent) wordLimit) * (m * 2 ^ (e + 52).toNat) <
        (2 ^ 54 - 1) * 2 ^ (970 + 52)
  | _ => false

/-- All powers of ten that are doubles have room. -/
theorem hasRoom_of_le : ∀ exponent < 309, hasRoom exponent = true := by
  decide +kernel

/-- A power of ten as a double: its mantissa, its size, and the room that is left above it. -/
theorem unpack_powerOfTen {exponent : Nat} (hle : exponent ≤ 308) :
    ∃ sign m e hpos, (powerOfTen exponent).toModel.unpack = .finite sign m e hpos ∧ 2 ^ 52 ≤ m ∧
      (3 * exponent : Int) ≤ e + 52 ∧
      halfUp (min (ceiling / 10 ^ exponent) wordLimit) * (m * 2 ^ (e + 52).toNat) <
        (2 ^ 54 - 1) * 2 ^ (970 + 52) := by
  have hroom := hasRoom_of_le exponent (by omega)
  unfold hasRoom at hroom
  cases hunpacked : (powerOfTen exponent).toModel.unpack with
  | finite sign m e hpos =>
    rw [hunpacked] at hroom
    simp only [Bool.and_eq_true, decide_eq_true_eq] at hroom
    exact ⟨sign, m, e, hpos, rfl, hroom.1.1, hroom.1.2, hroom.2⟩
  | _ =>
    rw [hunpacked] at hroom
    exact absurd hroom Bool.false_ne_true

/-- One division by a power of ten. -/
theorem Low.div {limit : Int} {x : Float} (h : Low limit x) {exponent : Nat} (hle : exponent ≤ 308)
    (hlow : -1074 ≤ limit) (hhigh : limit ≤ 970) :
    Low (max (limit - 3 * exponent) (-1074) + 1) (x / powerOfTen exponent) := by
  obtain ⟨sign, m, e, hpos, hunpacked, hwide, hsize, -⟩ := unpack_powerOfTen hle
  change ExponentAtMost _ (Float.Model.pack (UnpackedFloat.div _ x.toModel.unpack
    (powerOfTen exponent).toModel.unpack)).unpack
  rw [hunpacked]
  refine ExponentAtMost.pack ?_ (by omega) (by omega)
  exact (exponentAtMost_div h (fun _ _ _ _ hsame => unpack_mantissa_lt hsame) sign hpos hwide).mono
    (by omega)

/-- Dividing by powers of ten raises the exponent by one at most, however many are needed. -/
theorem low_divideByPower {value : Float} (exponent : Nat) (h : Low 12 value) :
    Low 13 (divideByPower value exponent) := by
  induction value, exponent using divideByPower.induct with
  | case1 value exponent hle =>
    rw [divideByPower, if_pos hle]
    exact (h.div hle (by decide) (by decide)).mono (by omega)
  | case2 value exponent hgt hzero =>
    rw [divideByPower, if_neg hgt, if_pos hzero]
    exact h.mono (by decide)
  | case3 value exponent hgt hpositive ih =>
    rw [divideByPower, if_neg hgt, if_neg hpositive]
    exact ih ((h.div (le_refl 308) (by decide) (by decide)).mono (by decide))

/-! ## Scaled words -/

/-- A finite product is finite before it is packed. -/
theorem isFinite_mul {u : UnpackedFloat} (h : u.isFinite = true) (sign : Sign) {m : Nat} {e : Int}
    (hpos : 0 < m) :
    (UnpackedFloat.mul Format.binary64 u (.finite sign m e hpos)).isFinite = true := by
  cases u with
  | infinity _ => exact absurd h Bool.false_ne_true
  | notANumber => exact absurd h Bool.false_ne_true
  | zero _ => rfl
  | finite _ _ _ _ => exact (exponentAtMost_round _ _ _ _).isFinite

/-- A scaled word is finite. -/
theorem isFinite_of_scaled? {digits : Nat} {exponent : Int} {x : Float} (hword : digits ≤ wordLimit)
    (h : scaled? digits exponent = some x) : x.isFinite = true := by
  have hvalue := low_toFloat hword
  unfold scaled? at h
  simp only at h
  split_ifs at h with hnegative hsmall hinfinite hzero
  · cases h
    exact (low_divideByPower _ hvalue).isFinite
  · cases h
    have hbounded := Bool.eq_false_of_not_eq_true hinfinite
    obtain ⟨sign, m, e, hpos, hunpacked, -⟩ :=
      unpack_powerOfTen (show exponent.toNat ≤ 308 by omega)
    refine isFinite_pack ?_ hbounded
    rw [hunpacked]
    exact isFinite_mul hvalue.isFinite sign hpos
  · cases h
    exact hvalue.isFinite

/-- Powers of two put together. -/
theorem mul_two_pow (a b c d : Nat) : a * 2 ^ (b + c) * 2 ^ d = a * 2 ^ (b + (c + d)) := by
  rw [Nat.mul_assoc, ← Nat.pow_add, Nat.add_assoc]

/-- Values of 53 bits each, in parts of `2 ^ 52`, whose product stays below the halfway point
behind the greatest double. -/
theorem exponentAtMost_mul {limit m₁ m : Nat} {e₁ e : Int} (sign : Sign) (hwide₁ : 2 ^ 52 ≤ m₁)
    (hwide : 2 ^ 52 ≤ m) (hlow₁ : -52 ≤ e₁) (hlow : -52 ≤ e)
    (hvalue₁ : m₁ * 2 ^ (e₁ + 52).toNat ≤ limit * 2 ^ 52)
    (hroom : limit * (m * 2 ^ (e + 52).toNat) < (2 ^ 54 - 1) * 2 ^ (970 + 52)) :
    ExponentAtMost 971 (roundWithAccuracy Format.binary64 sign (m₁ * m) (e₁ + e) .exact) := by
  have htogether : (e₁ + e + (52 + 52 : Nat)).toNat = (e₁ + 52).toNat + (e + 52).toNat := by omega
  have hbelow :
      m₁ * m * 2 ^ (e₁ + e + (52 + 52 : Nat)).toNat < (2 ^ 54 - 1) * 2 ^ (970 + (52 + 52)) := by
    calc m₁ * m * 2 ^ (e₁ + e + (52 + 52 : Nat)).toNat
        = m₁ * 2 ^ (e₁ + 52).toNat * (m * 2 ^ (e + 52).toNat) := by
          rw [htogether, Nat.pow_add]
          ring
      _ ≤ limit * 2 ^ 52 * (m * 2 ^ (e + 52).toNat) := Nat.mul_le_mul_right _ hvalue₁
      _ = limit * (m * 2 ^ (e + 52).toNat) * 2 ^ 52 := by ring
      _ < (2 ^ 54 - 1) * 2 ^ (970 + 52) * 2 ^ 52 :=
          Nat.mul_lt_mul_of_pos_right hroom (Nat.two_pow_pos _)
      _ = (2 ^ 54 - 1) * 2 ^ (970 + (52 + 52)) := mul_two_pow ..
  have hwideProduct : 2 ^ (52 + 52) ≤ m₁ * m := by
    rw [Nat.pow_add]
    exact Nat.mul_le_mul hwide₁ hwide
  have hhigh := bits_lt_of_lt hwideProduct hbelow
  exact exponentAtMost_round_of_lt _ (by omega) (by omega) hbelow

/-- The product of a word and a power of ten does not overflow below the ceiling. -/
theorem isInf_mul_powerOfTen {digits exponent : Nat} (hword : digits ≤ wordLimit)
    (hle : exponent ≤ 308) (hunder : digits * 10 ^ exponent ≤ ceiling) :
    (digits.toUInt64.toFloat * powerOfTen exponent).isInf = false := by
  obtain ⟨sign, m, e, hpos, hunpacked, hwide, hsize, hroom⟩ := unpack_powerOfTen hle
  have hbounded : ExponentAtMost 971 (UnpackedFloat.mul Format.binary64
      (digits.toUInt64.toFloat).toModel.unpack (.finite sign m e hpos)) := by
    by_cases hzero : digits = 0
    · subst hzero
      trivial
    rw [toModel_toFloat (lt_of_le_wordLimit hword)]
    obtain ⟨sign₁, m₁, e₁, hpos₁, hunpacked₁, hwide₁, hlow₁, -, hvalue₁⟩ :=
      unpack_ofNat (Nat.pos_of_ne_zero hzero) (lt_of_le_wordLimit hword)
    have hgreatest : digits ≤ min (ceiling / 10 ^ exponent) wordLimit :=
      le_min ((Nat.le_div_iff_mul_le (Nat.pow_pos (by decide))).mpr hunder) hword
    rw [hunpacked₁]
    exact exponentAtMost_mul _ hwide₁ hwide hlow₁ (by omega) (hvalue₁ _ hgreatest) hroom
  change (Float.Model.pack (UnpackedFloat.mul _ _
    (powerOfTen exponent).toModel.unpack)).unpack.isInf = false
  rw [hunpacked]
  exact (hbounded.pack (by decide) (by decide)).isInf

/-- A word that stays under the ceiling can be scaled. -/
theorem isSome_scaled? {digits : Nat} {exponent : Int} (hword : digits ≤ wordLimit)
    (hunder : 0 ≤ exponent → digits * 10 ^ exponent.toNat ≤ ceiling) :
    (scaled? digits exponent).isSome = true := by
  unfold scaled?
  simp only
  split_ifs with hnegative hsmall hinfinite hzero
  · rfl
  · have hfinite := isInf_mul_powerOfTen hword (show exponent.toNat ≤ 308 by omega)
      (hunder (by omega))
    rw [hfinite] at hinfinite
    exact absurd hinfinite Bool.false_ne_true
  · rfl
  · rfl
  · -- Only zero stays under the ceiling with so large a power.
    obtain ⟨more, hpower⟩ : ∃ more, exponent.toNat = 200 + 109 + more :=
      Nat.exists_eq_add_of_le (by omega)
    have hnone : digits = 0 := by
      by_contra hpositive
      have habove : 10 ^ 200 * 10 ^ 109 ≤ ceiling := by
        calc 10 ^ 200 * 10 ^ 109 ≤ 10 ^ 200 * 10 ^ 109 * 10 ^ more :=
              Nat.le_mul_of_pos_right _ (Nat.pow_pos (by decide))
          _ = 1 * 10 ^ exponent.toNat := by simp only [hpower, Nat.pow_add, Nat.one_mul]
          _ ≤ digits * 10 ^ exponent.toNat :=
              Nat.mul_le_mul_right _ (Nat.pos_of_ne_zero hpositive)
          _ ≤ ceiling := hunder (by omega)
      exact absurd habove (by decide +kernel)
    subst hnone
    exact absurd (show ((0 : Nat).toUInt64.toFloat == 0) = true by decide +kernel) hzero

end QuerySurface.Json
