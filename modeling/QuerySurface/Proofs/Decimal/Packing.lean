import QuerySurface.Proofs.Decimal.Rounding
import QuerySurface.Decimal.Double

/-!
# Packing of doubles

The binary format keeps a mantissa of 53 bits and its exponent, keeps values finite as long as
the exponent fits, and makes every other one infinite. A finite double has a shape with
digits.
-/

namespace QuerySurface.Decimal

open Float.Model Float.Model.UnpackedFloat

/-- The leading bit that a normal double does not store stands for `2 ^ 52`. -/
theorem toNat_implicit (mantissa : BitVec 52) :
    (1#1 ++ mantissa).toNat = 2 ^ 52 + mantissa.toNat := by
  rw [BitVec.toNat_append, ← Nat.shiftLeft_add_eq_or_of_lt mantissa.isLt]
  rfl

/-- A mantissa with its leading bit is not zero. -/
theorem toNat_implicit_pos (mantissa : BitVec 52) : 0 < (1#1 ++ mantissa).toNat := by
  rw [toNat_implicit]
  omega

/-! ## Bit patterns -/

section unpack

variable {bits : BitVec Format.binary64.numBits}

/-- A bit pattern with a full exponent field has no finite value. -/
theorem unpack_full (hfull : (unpackExponent bits).toNat = 2047) :
    (UnpackedFloat.unpack Format.binary64 bits).isFinite = false := by
  have hspecial : unpackExponent bits = -1#11 := BitVec.eq_of_toNat_eq hfull
  unfold UnpackedFloat.unpack
  dsimp only
  rw [if_pos hspecial]
  split_ifs <;> rfl

/-- A bit pattern with an empty exponent field has the least exponent. -/
theorem unpack_empty (hempty : (unpackExponent bits).toNat = 0) :
    (∃ sign, UnpackedFloat.unpack Format.binary64 bits = .zero sign) ∨
      ∃ sign m e hpos, UnpackedFloat.unpack Format.binary64 bits = .finite sign m e hpos ∧
        m = (unpackMantissa bits).toNat ∧ e = -1074 := by
  have hlow : unpackExponent bits = 0#11 := BitVec.eq_of_toNat_eq hempty
  have hnotFull : unpackExponent bits ≠ -1#11 := by
    rw [hlow]
    decide
  unfold UnpackedFloat.unpack
  dsimp only
  rw [if_neg hnotFull, if_pos hlow]
  by_cases hnone : unpackMantissa bits = 0#52
  · rw [dif_pos hnone]
    exact .inl ⟨_, rfl⟩
  · rw [dif_neg hnone]
    have hpositive : 0 < (unpackMantissa bits).toNat :=
      Nat.pos_of_ne_zero fun hzero => hnone (BitVec.eq_of_toNat_eq hzero)
    refine .inr ⟨_, _, _, hpositive, rfl, rfl, ?_⟩
    rw [hlow]
    rfl

/-- Every other bit pattern has a mantissa of 53 bits. -/
theorem unpack_normal (hused : (unpackExponent bits).toNat ≠ 0)
    (hordinary : (unpackExponent bits).toNat ≠ 2047) :
    ∃ sign m e hpos, UnpackedFloat.unpack Format.binary64 bits = .finite sign m e hpos ∧
      m = 2 ^ 52 + (unpackMantissa bits).toNat ∧ e = (unpackExponent bits).toNat - 1075 := by
  have hnotFull : unpackExponent bits ≠ -1#11 := fun hfull =>
    hordinary (congrArg BitVec.toNat hfull)
  have hnotLow : unpackExponent bits ≠ 0#11 := fun hlow => hused (congrArg BitVec.toNat hlow)
  unfold UnpackedFloat.unpack
  dsimp only
  rw [if_neg hnotFull, if_neg hnotLow]
  exact ⟨_, _, _, toNat_implicit_pos _, rfl, toNat_implicit _, rfl⟩

/-- What the exponent field of a bit pattern says about the value. -/
theorem exponentAtMost_unpack {limit : Int} (hlow : -1074 ≤ limit)
    (hfield : ((unpackExponent bits).toNat : Int) ≤ limit + 1075)
    (hordinary : (unpackExponent bits).toNat < 2047) :
    ExponentAtMost limit (UnpackedFloat.unpack Format.binary64 bits) := by
  by_cases hempty : (unpackExponent bits).toNat = 0
  · obtain ⟨_, hvalue⟩ | ⟨_, _, e, _, hvalue, -, hexponent⟩ := unpack_empty hempty
    · rw [hvalue]
      trivial
    · rw [hvalue]
      change e ≤ limit
      omega
  · obtain ⟨_, _, e, _, hvalue, -, hexponent⟩ := unpack_normal hempty hordinary.ne
    rw [hvalue]
    change e ≤ limit
    omega

end unpack

/-! ## Packing -/

/-- The bits of a value with a mantissa. -/
theorem pack_finite (sign : Sign) {m : Nat} {e : Int} (hpositive : 0 < m) :
    UnpackedFloat.pack Format.binary64 (.finite sign m e hpositive) =
      if 2 ^ 11 ≤ (e + 1023 + 52).toNat + 1 then packedInfinity Format.binary64 sign
      else if m.log2 + 1 = 53 then
        packComponents Format.binary64 sign (BitVec.ofNat 11 (e + 1023 + 52).toNat)
          (BitVec.ofNat 52 m)
      else packComponents Format.binary64 sign 0#11 (BitVec.ofNat 52 m) :=
  rfl

/-- An exponent in range fits the eleven bits of its field. -/
theorem toNat_exponentField {e : Int} (hhigh : e ≤ 971) :
    (BitVec.ofNat 11 (e + 1023 + 52).toNat).toNat = (e + 1023 + 52).toNat := by
  rw [BitVec.toNat_ofNat, Nat.mod_eq_of_lt (by omega)]

/-- A mantissa of exactly 53 bits and an exponent in range are kept. -/
theorem unpack_pack_normal (sign : Sign) {m : Nat} {e : Int} (hpositive : 0 < m)
    (hwide : 2 ^ 52 ≤ m) (hfits : m < 2 ^ 53) (hlow : -1074 ≤ e) (hhigh : e ≤ 971) :
    ∃ kept,
      (Float.Model.pack (.finite sign m e hpositive)).unpack = .finite kept m e hpositive := by
  have hlength : m.log2 + 1 = 53 := by
    have := log2_le_of_lt hfits
    have := (Nat.le_log2 (Nat.ne_of_gt hpositive)).mpr hwide
    omega
  change ∃ kept, UnpackedFloat.unpack Format.binary64 (UnpackedFloat.pack _ _) = _
  rw [pack_finite, if_neg (by omega), if_pos hlength]
  have hfield : (unpackExponent (packComponents Format.binary64 sign
      (BitVec.ofNat 11 (e + 1023 + 52).toNat) (BitVec.ofNat 52 m))).toNat =
        (e + 1023 + 52).toNat := by
    rw [unpackExponent_packComponents]
    exact toNat_exponentField hhigh
  have hkept : (unpackMantissa (packComponents Format.binary64 sign
      (BitVec.ofNat 11 (e + 1023 + 52).toNat) (BitVec.ofNat 52 m))).toNat = m % 2 ^ 52 := by
    rw [unpackMantissa_packComponents]
    exact BitVec.toNat_ofNat m 52
  obtain ⟨sign', m', e', _, hvalue, hmantissa, hexponent⟩ :=
    unpack_normal (by rw [hfield]; omega) (by rw [hfield]; omega)
  obtain rfl : m' = m := by omega
  obtain rfl : e' = e := by omega
  exact ⟨sign', hvalue⟩

/-- Packing keeps an exponent below its limit, or makes it the least one. -/
theorem ExponentAtMost.pack {limit : Int} {u : UnpackedFloat} (h : ExponentAtMost limit u)
    (hlow : -1074 ≤ limit) (hhigh : limit ≤ 971) :
    ExponentAtMost limit (Float.Model.pack u).unpack := by
  change ExponentAtMost limit (UnpackedFloat.unpack Format.binary64 (UnpackedFloat.pack _ u))
  have hsubnormal (sign : Sign) (mantissa : BitVec 52) :
      ExponentAtMost limit (UnpackedFloat.unpack Format.binary64
        (packComponents Format.binary64 sign 0#11 mantissa)) := by
    apply exponentAtMost_unpack hlow <;> rw [unpackExponent_packComponents]
    · change (0 : Int) ≤ _
      omega
    · decide
  cases u with
  | infinity _ => exact h.elim
  | notANumber => exact h.elim
  | zero sign => exact hsubnormal sign 0
  | finite sign m e hpositive =>
    have hbelow : e ≤ limit := h
    rw [pack_finite, if_neg (by omega)]
    by_cases hlength : m.log2 + 1 = 53
    · rw [if_pos hlength]
      have hfield := toNat_exponentField (hbelow.trans hhigh)
      apply exponentAtMost_unpack hlow <;> rw [unpackExponent_packComponents]
      · exact le_of_eq_of_le (congrArg Nat.cast hfield) (by omega)
      · exact lt_of_eq_of_lt hfield (by omega)
    · rw [if_neg hlength]
      exact hsubnormal sign _

/-- A finite result whose exponent does not fit becomes infinite. -/
theorem isFinite_pack {u : UnpackedFloat} (hfinite : u.isFinite = true)
    (hbounded : (Float.Model.pack u).isInf = false) : (Float.Model.pack u).isFinite = true := by
  cases u with
  | infinity _ => exact absurd hfinite Bool.false_ne_true
  | notANumber => exact absurd hfinite Bool.false_ne_true
  | zero sign =>
    have hsmall : ExponentAtMost 0 (.zero sign) := trivial
    exact (hsmall.pack (by decide) (by decide)).isFinite
  | finite sign m e hpositive =>
    by_cases hfits : e ≤ 971
    · have hsmall : ExponentAtMost 971 (.finite sign m e hpositive) := hfits
      exact (hsmall.pack (by decide) (by decide)).isFinite
    · change (UnpackedFloat.unpack Format.binary64 (UnpackedFloat.pack _ _)).isInf = false
        at hbounded
      rw [pack_finite, if_pos (by omega)] at hbounded
      have hinfinite : (UnpackedFloat.unpack Format.binary64
          (packedInfinity Format.binary64 sign)).isInf = true := by
        cases sign <;> decide
      rw [hinfinite] at hbounded
      cases hbounded

end QuerySurface.Decimal
