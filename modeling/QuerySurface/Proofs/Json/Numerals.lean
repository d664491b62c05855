import QuerySurface.Json.Printer
import QuerySurface.Proofs.Decimal.Shapes
import QuerySurface.Proofs.Json.Digits
import QuerySurface.Proofs.Json.Scaling

/-!
# Numerals of numbers

The text of a number is a well-formed numeral. An exact integer is read back as it is, and
the numeral of a finite double is read back as a double: it never lies above the greatest
one, although reading rounds twice.
-/

namespace QuerySurface.Json

open Decimal

/-! ## Well-formed numerals -/

/-- At least one digit, and nothing else. -/
def DigitRow (row : List Char) : Prop :=
  row ≠ [] ∧ AllDigits row

namespace Numeral

/-- A numeral as text. -/
def written (numeral : Numeral) : List Char :=
  (if numeral.negative then ['-'] else []) ++ numeral.whole ++
    numeral.fraction.elim [] ('.' :: ·) ++
    numeral.exponent.elim [] fun e => 'e' :: ((if e.1 then ['-'] else []) ++ e.2)

/-- A numeral that the format allows: digits in every part that is there, and no zero in front
of other digits. -/
structure Proper (numeral : Numeral) : Prop where
  /-- Digits in front of the point. -/
  whole : DigitRow numeral.whole
  /-- A zero in front stands alone. -/
  leading : numeral.whole.head? = some '0' → numeral.whole = ['0']
  /-- Digits behind the point. -/
  fraction : ∀ row ∈ numeral.fraction, DigitRow row
  /-- Digits of the exponent. -/
  exponent : ∀ e ∈ numeral.exponent, DigitRow e.2

/-- The decimal that a numeral writes, without its sign. -/
def decimal (numeral : Numeral) : Scientific :=
  ⟨ofDigits 10 (numeral.whole ++ numeral.fraction.getD []),
    numeral.writtenExponent - (numeral.fraction.getD []).length⟩

end Numeral

/-! ## Numerals of doubles -/

/-- Digits in front of and behind the point, zeros filled in and one on each side at least. -/
def pointed (row : List Char) (whole : Int) : List Char × List Char :=
  if whole ≤ 0 then (['0'], List.replicate (-whole).toNat '0' ++ row)
  else if row.length ≤ whole then (row ++ List.replicate (whole - row.length).toNat '0', ['0'])
  else (row.take whole.toNat, row.drop whole.toNat)

/-- Digits with the point behind the first one, and a power of ten. -/
def scientific (negative : Bool) (row : List Char) (power : Int) : Numeral where
  negative
  whole := row.take 1
  fraction := if (row.drop 1).isEmpty then none else some (row.drop 1)
  exponent := some (power < 0, Nat.toDigits 10 power.natAbs)

/-- The numeral of a double: positional while the point stands near the digits, else
scientific. -/
def numeralOf (negative : Bool) (magnitude : Scientific) : Numeral :=
  let digits := Nat.toDigits 10 magnitude.digits
  let whole : Int := digits.length + magnitude.exponent
  if magnitude.digits = 0 then ⟨negative, ['0'], some ['0'], none⟩
  else if -5 < whole ∧ whole ≤ 16 then
    ⟨negative, (pointed digits whole).1, some (pointed digits whole).2, none⟩
  else scientific negative digits (whole - 1)

/-- A natural number is written with its digits. -/
theorem toList_toString_nat (n : Nat) : (toString n).toList = Nat.toDigits 10 n := by
  rw [Nat.toString_eq_repr, Nat.toList_repr]

/-- An integer is written with the digits of its size, behind a sign if it is negative. -/
theorem toList_toString_int (n : Int) :
    (toString n).toList = (if n < 0 then ['-'] else []) ++ Nat.toDigits 10 n.natAbs := by
  rw [Int.toString_eq_repr, Int.repr_eq_if]
  by_cases hnegative : n < 0
  · have hsize : (-n).toNat = n.natAbs := by omega
    rw [if_neg (by omega), if_pos hnegative, hsize, String.toList_append, Nat.toList_repr]
    rfl
  · have hsize : n.toNat = n.natAbs := by omega
    rw [if_pos (by omega), if_neg hnegative, hsize, Nat.toList_repr]
    rfl

/-- The two sides of a point, as texts and as rows of digits. -/
theorem positional_eq {digits : String} (hsome : digits.toList ≠ []) (whole : Int) :
    (positional digits whole).1.toList = (pointed digits.toList whole).1 ∧
      (if (positional digits whole).2.isEmpty then "0" else (positional digits whole).2).toList =
        (pointed digits.toList whole).2 := by
  have hlength : digits.length = digits.toList.length := String.length_toList.symm
  have hfilled {behind : String} (hrow : behind.toList ≠ []) :
      (if behind.isEmpty then "0" else behind) = behind := by
    refine if_neg fun hempty => hrow ?_
    rw [String.isEmpty_iff.mp hempty, String.toList_empty]
  by_cases hlow : whole ≤ 0
  · simp only [positional, pointed, zeros, if_pos hlow]
    rw [hfilled (by simp [hsome])]
    exact ⟨rfl, by simp⟩
  by_cases hhigh : (digits.toList.length : Int) ≤ whole
  · simp only [positional, pointed, zeros, if_neg hlow, hlength, if_pos hhigh]
    exact ⟨by simp, rfl⟩
  · have hleft : digits.toList.drop whole.toNat ≠ [] := by
      rw [Ne, List.drop_eq_nil_iff]
      omega
    simp only [positional, pointed, if_neg hlow, hlength, if_neg hhigh]
    rw [hfilled (by simpa using hleft)]
    exact ⟨String.toList_ofList, String.toList_ofList⟩

/-- The text of a finite double is that of its numeral. -/
theorem toList_dataText {x : Float} {negative : Bool} {magnitude : Scientific}
    (h : shape x = .finite negative magnitude) :
    (dataText x).toList = (numeralOf negative magnitude).written := by
  have hsign : (if negative = true then "-" else "").toList =
      if negative = true then ['-'] else [] := by
    cases negative <;> rfl
  have hdigits := toList_toString_nat magnitude.digits
  have hlength : (toString magnitude.digits).length =
      (Nat.toDigits 10 magnitude.digits).length := by
    rw [← String.length_toList, hdigits]
  have hpoints := positional_eq (hdigits ▸ Nat.toDigits_ne_nil)
    ((Nat.toDigits 10 magnitude.digits).length + magnitude.exponent)
  rw [hdigits] at hpoints
  unfold dataText numeralOf Numeral.written
  rw [h]
  simp only [hlength, hdigits]
  generalize (if negative = true then "-" else "") = minus at hsign ⊢
  by_cases hzero : magnitude.digits = 0
  · simp only [if_pos hzero, String.toList_append, hsign]
    simp
  rw [if_neg hzero, if_neg hzero]
  generalize (Nat.toDigits 10 magnitude.digits).length + magnitude.exponent = whole at hpoints ⊢
  by_cases hnear : -5 < whole ∧ whole ≤ 16
  · rw [if_pos hnear, if_pos hnear]
    simp only [String.toList_append, hsign, hpoints]
    simp
  · rw [if_neg hnear, if_neg hnear]
    simp only [scientific, String.toList_append, hsign, toList_toString_int, String.toList_ofList]
    cases (Nat.toDigits 10 magnitude.digits).drop 1 <;> simp <;> rfl

/-- A single zero is a row of digits. -/
theorem DigitRow.zero : DigitRow ['0'] :=
  ⟨List.cons_ne_nil _ _, List.forall_mem_singleton.mpr rfl⟩

/-- The digits of a natural number are a row with at least one digit. -/
theorem digitRow_toDigits (n : Nat) : DigitRow (Nat.toDigits 10 n) :=
  ⟨Nat.toDigits_ne_nil, allDigits_toDigits n⟩

/-- Digits behind a row leave it a row. -/
theorem DigitRow.append_left {front behind : List Char} (h : DigitRow front)
    (hlater : AllDigits behind) : DigitRow (front ++ behind) :=
  ⟨List.append_ne_nil_of_left_ne_nil h.1 behind, h.2.append hlater⟩

/-- Digits in front of a row leave it a row. -/
theorem DigitRow.append_right {front behind : List Char} (hearlier : AllDigits front)
    (h : DigitRow behind) : DigitRow (front ++ behind) :=
  ⟨List.append_ne_nil_of_right_ne_nil front h.1, hearlier.append h.2⟩

/-- Both sides of a point are digits, and no zero is put in front of others. -/
theorem proper_pointed {row : List Char} (hdigits : DigitRow row) (hleading : row.head? ≠ some '0')
    (whole : Int) (negative : Bool) :
    Numeral.Proper ⟨negative, (pointed row whole).1, some (pointed row whole).2, none⟩ := by
  unfold pointed
  split_ifs with hlow hhigh
  · exact ⟨.zero, fun _ => rfl, by simpa using hdigits.append_right (allDigits_zeros _), by simp⟩
  · refine ⟨hdigits.append_left (allDigits_zeros _), fun hzero => ?_, by simpa using .zero, by simp⟩
    obtain ⟨c, rest, rfl⟩ := List.exists_cons_of_ne_nil hdigits.1
    exact absurd hzero hleading
  · have hfront : row.take whole.toNat ≠ [] := by
      rw [Ne, List.take_eq_nil_iff]
      exact fun hnone => hnone.elim (by omega) hdigits.1
    have hbehind : row.drop whole.toNat ≠ [] := by
      rw [Ne, List.drop_eq_nil_iff]
      omega
    refine ⟨⟨hfront, fun c hmem => hdigits.2 c (List.mem_of_mem_take hmem)⟩,
      fun hzero => ?_, ?_, by simp⟩
    · rw [List.head?_take, if_neg (by omega)] at hzero
      exact absurd hzero hleading
    · simpa using ⟨hbehind, fun c hmem => hdigits.2 c (List.mem_of_mem_drop hmem)⟩

/-- Where the point stands does not change the value. -/
theorem atMost_pointed {a b : Nat} {row : List Char} {whole : Int}
    (h : Scientific.AtMost a b ⟨ofDigits 10 row, whole - row.length⟩) :
    Scientific.AtMost a b ⟨ofDigits 10 ((pointed row whole).1 ++ (pointed row whole).2),
      -(pointed row whole).2.length⟩ := by
  have hzero : ofDigits 10 ['0'] = 0 := by decide
  unfold pointed
  split_ifs with hlow hhigh
  · have hvalue : ofDigits 10 (['0'] ++ (List.replicate (-whole).toNat '0' ++ row)) =
        ofDigits 10 row := by
      rw [ofDigits_append, ofDigits_append, ofDigits_zeros, hzero]
      simp
    have hexponent : -((List.replicate (-whole).toNat '0' ++ row).length : Int) =
        whole - row.length := by
      rw [List.length_append, List.length_replicate]
      omega
    rw [hvalue, hexponent]
    exact h
  · have hvalue : ofDigits 10 (row ++ List.replicate (whole - row.length).toNat '0' ++ ['0']) =
        ofDigits 10 row * 10 ^ ((whole - row.length).toNat + 1) := by
      rw [ofDigits_append, ofDigits_append, ofDigits_zeros, hzero, List.length_replicate]
      simp [Nat.pow_succ, Nat.mul_assoc]
    have hexponent : -(['0'].length : Int) + ((whole - row.length).toNat + 1 : Nat) =
        whole - row.length := by
      simp
      omega
    rw [hvalue, Scientific.atMost_mul_power, hexponent]
    exact h
  · have hexponent : -((row.drop whole.toNat).length : Int) = whole - row.length := by
      rw [List.length_drop]
      omega
    rw [List.take_append_drop, hexponent]
    exact h

/-- A point that stands near the digits has at most sixteen of them in front. -/
theorem length_pointed_le {row : List Char} {whole : Int} (hle : whole ≤ 16) :
    (pointed row whole).1.length ≤ 16 := by
  unfold pointed
  split_ifs with hlow hhigh
  · simp
  · rw [List.length_append, List.length_replicate]
    omega
  · rw [List.length_take]
    omega

/-- The scientific form of digits without a zero in front is well formed. -/
theorem proper_scientific {row : List Char} (hdigits : DigitRow row)
    (hleading : row.head? ≠ some '0') (negative : Bool) (power : Int) :
    (scientific negative row power).Proper := by
  obtain ⟨c, rest, rfl⟩ := List.exists_cons_of_ne_nil hdigits.1
  refine ⟨⟨by simp [scientific], ?_⟩, fun hzero => absurd hzero hleading, ?_, ?_⟩
  · exact fun d hmem => hdigits.2 d (List.mem_of_mem_take hmem)
  · intro row hfound
    simp only [scientific, List.drop_succ_cons, List.drop_zero, Option.mem_def] at hfound
    split_ifs at hfound with hnone
    cases hfound
    exact ⟨by simpa using hnone, fun d hmem => hdigits.2 d (List.mem_cons_of_mem c hmem)⟩
  · intro e hfound
    cases hfound
    exact digitRow_toDigits _

/-- The scientific form stands for its digits with the point behind the first, moved by the power.
-/
theorem decimal_scientific (negative : Bool) (row : List Char) (power : Int) :
    (scientific negative row power).decimal =
      ⟨ofDigits 10 row, power - (row.drop 1).length⟩ := by
  have hbehind : (scientific negative row power).fraction.getD [] = row.drop 1 := by
    unfold scientific
    split_ifs with hnone
    · rw [Option.getD_none, List.isEmpty_iff.mp hnone]
    · rfl
  have hexponent : (scientific negative row power).writtenExponent = power := by
    simp only [Numeral.writtenExponent, scientific, ofDigits_toDigits, decide_eq_true_eq]
    split_ifs <;> omega
  have hrow : (scientific negative row power).whole ++ row.drop 1 = row :=
    List.take_append_drop 1 row
  unfold Numeral.decimal
  rw [hbehind, hexponent, hrow]

/-- The numeral of a double is well formed. -/
theorem proper_numeralOf (negative : Bool) (magnitude : Scientific) :
    (numeralOf negative magnitude).Proper := by
  have hdigits := digitRow_toDigits magnitude.digits
  by_cases hzero : magnitude.digits = 0
  · unfold numeralOf
    rw [if_pos hzero]
    exact ⟨.zero, fun _ => rfl, by simpa using .zero, by simp⟩
  · obtain ⟨c, rest, hrow, hnonzero⟩ := head_toDigits (Nat.pos_of_ne_zero hzero)
    have hleading : (Nat.toDigits 10 magnitude.digits).head? ≠ some '0' := by
      rw [hrow]
      simpa using hnonzero
    unfold numeralOf
    rw [if_neg hzero]
    split_ifs
    · exact proper_pointed hdigits hleading _ negative
    · exact proper_scientific hdigits hleading negative _

/-- The numeral of a double writes no more than its decimal, and few digits in front. -/
theorem atMost_numeralOf {a b : Nat} (negative : Bool) {magnitude : Scientific}
    (h : magnitude.AtMost a b) :
    (numeralOf negative magnitude).decimal.AtMost a b ∧
      (numeralOf negative magnitude).whole.length ≤ 16 := by
  have hvalue := ofDigits_toDigits magnitude.digits
  have hlength : 0 < (Nat.toDigits 10 magnitude.digits).length := Nat.length_toDigits_pos
  unfold numeralOf
  simp only
  split_ifs with hzero hnear
  · exact ⟨by simp [Numeral.decimal, Scientific.AtMost, ofDigits, digitOf], by simp⟩
  · refine ⟨?_, length_pointed_le hnear.2⟩
    simp only [Numeral.decimal, Numeral.writtenExponent, Option.getD_some, zero_sub]
    refine atMost_pointed ?_
    rw [hvalue, add_sub_cancel_left]
    exact h
  · refine ⟨?_, by simp [scientific]⟩
    have hpower : ((Nat.toDigits 10 magnitude.digits).length : Int) + magnitude.exponent - 1 -
        ((Nat.toDigits 10 magnitude.digits).drop 1).length = magnitude.exponent := by
      rw [List.length_drop]
      omega
    rw [decimal_scientific, hvalue, hpower]
    exact h

/-! ## Reading numerals -/

/-- A numeral is read as a word that was scaled. -/
theorem exists_magnitude? (numeral : Numeral) :
    ∃ digits ≤ wordLimit, ∃ exponent, numeral.magnitude? = scaled? digits exponent := by
  have hfront := (leadingDigits_le numeral.whole (Nat.zero_le wordLimit)).1
  exact ⟨_, (leadingDigits_le (numeral.fraction.getD []) hfront).1, _, rfl⟩

/-- With few digits in front, the word and its power are not above the decimal written. -/
theorem magnitude?_of_short {numeral : Numeral} (hdigits : AllDigits numeral.whole)
    (hshort : numeral.whole.length ≤ 16) :
    ∃ word ≤ wordLimit, ∃ left : Nat, word * 10 ^ left ≤ numeral.decimal.digits ∧
      numeral.magnitude? = scaled? word (numeral.decimal.exponent + left) := by
  have hsmall : ofDigits 10 numeral.whole ≤ wordLimit := by
    calc ofDigits 10 numeral.whole ≤ 10 ^ numeral.whole.length := (ofDigits_lt hdigits).le
      _ ≤ 10 ^ 16 := Nat.pow_le_pow_right (by decide) hshort
      _ ≤ wordLimit := by decide
  have hwhole : leadingDigits 0 numeral.whole = (ofDigits 10 numeral.whole, []) := by
    rw [leadingDigits_of_le (by rwa [Nat.zero_mul, Nat.zero_add]), Nat.zero_mul, Nat.zero_add]
  obtain ⟨hword, hshorter, hbelow⟩ := leadingDigits_le (numeral.fraction.getD []) hsmall
  refine ⟨_, hword, (leadingDigits (ofDigits 10 numeral.whole) (numeral.fraction.getD [])).2.length,
    ?_, ?_⟩
  · rw [← ofDigits_append] at hbelow
    exact hbelow
  · have hpower : (([] : List Char).length : Int) - ((numeral.fraction.getD []).length -
          (leadingDigits (ofDigits 10 numeral.whole) (numeral.fraction.getD [])).2.length) +
          numeral.writtenExponent =
        numeral.decimal.exponent +
          (leadingDigits (ofDigits 10 numeral.whole) (numeral.fraction.getD [])).2.length := by
      simp only [Numeral.decimal, List.length_nil, Nat.cast_zero]
      omega
    unfold Numeral.magnitude?
    simp only [hwhole, hpower]

/-- A numeral below the ceiling has a value. -/
theorem isSome_magnitude? {numeral : Numeral} (hdigits : AllDigits numeral.whole)
    (hshort : numeral.whole.length ≤ 16) (hbelow : numeral.decimal.AtMost ceiling 1) :
    numeral.magnitude?.isSome = true := by
  obtain ⟨word, hfits, left, hle, hscaled⟩ := magnitude?_of_short hdigits hshort
  rw [hscaled]
  exact isSome_scaled? hfits fun hpositive =>
    (Scientific.atMost_mul_power.mp (hbelow.of_le hle)).le hpositive

/-- The numeral of a double is not that of an integer. -/
theorem value?_numeralOf (negative : Bool) (magnitude : Scientific) :
    (numeralOf negative magnitude).value? =
      (numeralOf negative magnitude).magnitude?.map fun size =>
        .real (if (numeralOf negative magnitude).negative then -size else size) := by
  have hinexact : (numeralOf negative magnitude).fraction ≠ none ∨
      (numeralOf negative magnitude).exponent ≠ none := by
    unfold numeralOf
    simp only
    split_ifs
    · exact .inl nofun
    · exact .inl nofun
    · exact .inr nofun
  unfold Numeral.value?
  split
  · rename_i hfraction hexponent _
    exact absurd hinexact (by simp [hfraction, hexponent])
  · rfl

/-! ## Numbers -/

namespace Number

/-- A number that a text can have: an integer that fits a word, or a finite double. -/
def Sound : Number → Prop
  | .integer value => -2 ^ 63 ≤ value ∧ value ≤ wordLimit
  | .real value => value.isFinite = true

/-- A number whose value, if it is a double, is left open. -/
def blurred : Number → Number
  | .integer value => .integer value
  | .real _ => .real 0

/-- The numeral of a number. -/
def numeral : Number → Numeral
  | .integer value => ⟨value < 0, Nat.toDigits 10 value.natAbs, none, none⟩
  | .real value =>
    match shape value with
    | .finite negative magnitude => numeralOf negative magnitude
    | _ => numeralOf false ⟨0, 0⟩

/-- A number is written as its numeral is. -/
theorem written_eq {number : Number} (hsound : number.Sound) :
    number.written = number.numeral.written := by
  cases number with
  | integer value =>
    rw [Number.written, toList_toString_int]
    simp [numeral, Numeral.written]
  | real value =>
    obtain ⟨negative, magnitude, hshaped, -⟩ := shape_of_isFinite hsound
    rw [Number.written, toList_dataText hshaped, numeral, hshaped]

/-- The numeral of a number is well formed. -/
theorem proper_numeral (number : Number) : number.numeral.Proper := by
  cases number with
  | integer value =>
    refine ⟨digitRow_toDigits _, fun hzero => ?_, by simp [numeral], by simp [numeral]⟩
    simp only [numeral] at hzero ⊢
    by_cases hnone : value.natAbs = 0
    · rw [hnone]
      rfl
    · obtain ⟨c, rest, hrow, hnonzero⟩ := head_toDigits (Nat.pos_of_ne_zero hnone)
      rw [hrow] at hzero
      exact absurd (Option.some.inj hzero) hnonzero
  | real value =>
    unfold numeral
    simp only
    split
    · exact proper_numeralOf _ _
    · exact proper_numeralOf _ _

/-- A finite double with its sign changed is finite. -/
theorem isFinite_neg {x : Float} (h : x.isFinite = true) : (-x).isFinite = true :=
  ((low_of_isFinite h).neg (by decide) (by decide)).isFinite

/-- Every number that is read is sound. -/
theorem sound_of_value? {numeral : Numeral} {number : Number} (h : numeral.value? = some number) :
    number.Sound := by
  have hfront := (leadingDigits_le numeral.whole (Nat.zero_le wordLimit)).1
  unfold Numeral.value? at h
  split at h
  · rename_i value _ _ hwhole
    rw [hwhole] at hfront
    split_ifs at h with hpositive hlow <;> cases h
    · exact ⟨by omega, by exact_mod_cast hfront⟩
    · exact isFinite_neg (low_toFloat hfront).isFinite
    · have : Nat.pow 2 63 = 2 ^ 63 := rfl
      exact ⟨by omega, by omega⟩
  · obtain ⟨digits, hword, exponent, hscaled⟩ := exists_magnitude? numeral
    rw [hscaled] at h
    cases hresult : scaled? digits exponent with
    | none =>
      rw [hresult] at h
      cases h
    | some size =>
      rw [hresult] at h
      cases h
      have hfinite := isFinite_of_scaled? hword hresult
      unfold Sound
      split_ifs
      · exact isFinite_neg hfinite
      · exact hfinite

/-- The numeral of a sound number is read back, a double as some double. -/
theorem value?_numeral {number : Number} (hsound : number.Sound) :
    ∃ again, number.numeral.value? = some again ∧ again.blurred = number.blurred := by
  cases number with
  | integer value =>
    obtain ⟨hlow, hhigh⟩ := hsound
    have hlimit : wordLimit = 2 ^ 64 - 1 := rfl
    have hdigits : leadingDigits 0 (Nat.toDigits 10 value.natAbs) = (value.natAbs, []) := by
      rw [leadingDigits_of_le (by rw [ofDigits_toDigits]; omega), ofDigits_toDigits,
        Nat.zero_mul, Nat.zero_add]
    refine ⟨.integer value, ?_, rfl⟩
    unfold Numeral.value? numeral
    simp only [hdigits]
    have hpower : Nat.pow 2 63 = 2 ^ 63 := rfl
    by_cases hnegative : value < 0
    · rw [if_neg (by simpa using hnegative), if_neg (by omega)]
      congr 2
      omega
    · rw [if_pos (by simpa using hnegative)]
      congr 2
      omega
  | real value =>
    obtain ⟨negative, magnitude, hshaped, hbelow⟩ := shape_of_isFinite hsound
    have hwritten : (real value).numeral = numeralOf negative magnitude := by
      rw [numeral, hshaped]
    have hreadable : (numeralOf negative magnitude).magnitude?.isSome = true := by
      obtain hunder | rfl := hbelow
      · obtain ⟨hunder, hshort⟩ := atMost_numeralOf negative hunder
        exact isSome_magnitude? (proper_numeralOf negative magnitude).whole.2 hshort hunder
      · cases negative <;> decide +kernel
    obtain ⟨size, hread⟩ := Option.isSome_iff_exists.mp hreadable
    rw [hwritten, value?_numeralOf, hread]
    exact ⟨_, rfl, rfl⟩

end Number

end QuerySurface.Json
