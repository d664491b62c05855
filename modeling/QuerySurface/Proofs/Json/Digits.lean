import Mathlib.Tactic.Ring
import QuerySurface.Json.Numeral

/-!
# Digits

Values of rows of digits: appended rows, rows of zeros, and the digits of a natural number,
which have no zero in front. Reading digits while they fit a word keeps a number whose
value, with zeros for the digits that are left, is not above the one written.
-/

namespace QuerySurface.Decimal

/-- Whether all characters are digits. -/
def AllDigits (row : List Char) : Prop :=
  ∀ c ∈ row, c.isDigit = true

/-- Rows of digits one behind the other are a row of digits. -/
theorem AllDigits.append {a b : List Char} (ha : AllDigits a) (hb : AllDigits b) :
    AllDigits (a ++ b) := by
  intro c hmem
  obtain hfront | hbehind := List.mem_append.mp hmem
  · exact ha c hfront
  · exact hb c hbehind

/-- The digits of a natural number are digits. -/
theorem allDigits_toDigits (n : Nat) : AllDigits (Nat.toDigits 10 n) :=
  fun _ => Nat.isDigit_of_mem_toDigits (by decide) (by decide)

/-- Zeros are digits. -/
theorem allDigits_zeros (count : Nat) : AllDigits (List.replicate count '0') := by
  intro c hmem
  rw [List.eq_of_mem_replicate hmem]
  decide

/-- A digit is worth nine at most. -/
theorem digitOf_le {c : Char} (h : c.isDigit = true) : digitOf c ≤ 9 := by
  have hrange := Char.isDigit_iff_toNat.mp h
  have : '9'.toNat = 57 := rfl
  unfold digitOf
  rw [if_pos h]
  omega

/-- Digits behind a number that was read before. -/
theorem foldl_digits (init : Nat) (row : List Char) :
    row.foldl (fun value c => value * 10 + digitOf c) init =
      init * 10 ^ row.length + ofDigits 10 row := by
  unfold ofDigits
  induction row generalizing init with
  | nil => simp
  | cons c rest ih =>
    rw [List.foldl_cons, List.foldl_cons, ih, ih (0 * 10 + digitOf c), List.length_cons]
    ring

/-- The first digit counts with the power of ten of the digits behind it. -/
theorem ofDigits_cons (c : Char) (row : List Char) :
    ofDigits 10 (c :: row) = digitOf c * 10 ^ row.length + ofDigits 10 row := by
  calc ofDigits 10 (c :: row) = (0 * 10 + digitOf c) * 10 ^ row.length + ofDigits 10 row :=
        foldl_digits (0 * 10 + digitOf c) row
    _ = digitOf c * 10 ^ row.length + ofDigits 10 row := by rw [Nat.zero_mul, Nat.zero_add]

/-- The front of a row counts with the power of ten of the digits behind it. -/
theorem ofDigits_append (a b : List Char) :
    ofDigits 10 (a ++ b) = ofDigits 10 a * 10 ^ b.length + ofDigits 10 b := by
  unfold ofDigits
  rw [List.foldl_append]
  exact foldl_digits _ b

/-- A row of zeros is worth nothing. -/
theorem ofDigits_zeros (count : Nat) : ofDigits 10 (List.replicate count '0') = 0 := by
  induction count with
  | zero => rfl
  | succ count ih =>
    rw [List.replicate_succ, ofDigits_cons, ih]
    have : digitOf '0' = 0 := by decide
    rw [this, Nat.zero_mul]

/-- A row of digits is worth less than the power of ten of its length. -/
theorem ofDigits_lt {row : List Char} (h : AllDigits row) : ofDigits 10 row < 10 ^ row.length := by
  induction row with
  | nil => decide
  | cons c rest ih =>
    have hfirst := digitOf_le (h c List.mem_cons_self)
    have hlater := ih fun d hmem => h d (List.mem_cons_of_mem c hmem)
    rw [ofDigits_cons, List.length_cons, Nat.pow_succ]
    have := Nat.mul_le_mul_right (10 ^ rest.length) hfirst
    omega

/-- Reading undoes writing. -/
theorem ofDigits_toDigits (n : Nat) : ofDigits 10 (Nat.toDigits 10 n) = n := by
  have hsame : ∀ row init, AllDigits row →
      row.foldl (fun value c => value * 10 + digitOf c) init = Nat.ofDigitChars 10 row init := by
    intro row
    induction row with
    | nil => exact fun _ _ => rfl
    | cons c rest ih =>
      intro init h
      rw [List.foldl_cons, Nat.ofDigitChars_cons,
        ih _ fun d hmem => h d (List.mem_cons_of_mem c hmem)]
      unfold digitOf
      rw [if_pos (h c List.mem_cons_self), Nat.mul_comm init]
      rfl
  unfold ofDigits
  rw [hsame _ _ (allDigits_toDigits n)]
  exact Nat.ofDigitChars_ten_toDigits

/-- The digits of a positive number do not start with a zero. -/
theorem head_toDigits {n : Nat} (hpositive : 0 < n) :
    ∃ c rest, Nat.toDigits 10 n = c :: rest ∧ c ≠ '0' := by
  induction n using Nat.strongRecOn with
  | ind n ih =>
    by_cases hsmall : n < 10
    · have hnonzero : ∀ digit < 10, 0 < digit → digit.digitChar ≠ '0' := by decide
      exact ⟨n.digitChar, [], Nat.toDigits_of_lt_base hsmall, hnonzero n hsmall hpositive⟩
    · obtain ⟨c, rest, hdigits, hnonzero⟩ := ih (n / 10) (by omega) (by omega)
      refine ⟨c, rest ++ [(n % 10).digitChar], ?_, hnonzero⟩
      rw [Nat.toDigits_of_base_le (by decide) (by omega), hdigits, List.cons_append]

end QuerySurface.Decimal

namespace QuerySurface.Json

open Decimal

/-- A row whose value fits a word is read whole. -/
theorem leadingDigits_of_le {value : Nat} {row : List Char}
    (hfits : value * 10 ^ row.length + ofDigits 10 row ≤ wordLimit) :
    leadingDigits value row = (value * 10 ^ row.length + ofDigits 10 row, []) := by
  induction row generalizing value with
  | nil => simp [leadingDigits, ofDigits]
  | cons c rest ih =>
    have hsum : value * 10 ^ (c :: rest).length + ofDigits 10 (c :: rest) =
        (value * 10 + digitOf c) * 10 ^ rest.length + ofDigits 10 rest := by
      rw [ofDigits_cons, List.length_cons]
      ring
    rw [hsum] at hfits ⊢
    have hleast := Nat.le_mul_of_pos_right (value * 10 + digitOf c)
      (Nat.pow_pos (show 0 < 10 by decide) (n := rest.length))
    rw [leadingDigits, if_pos (by omega), ih hfits]

/-- What is kept of a row of digits fits a word and is not above the row. -/
theorem leadingDigits_le {value : Nat} (row : List Char) (hword : value ≤ wordLimit) :
    (leadingDigits value row).1 ≤ wordLimit ∧
      (leadingDigits value row).2.length ≤ row.length ∧
      (leadingDigits value row).1 * 10 ^ (leadingDigits value row).2.length ≤
        value * 10 ^ row.length + ofDigits 10 row := by
  induction row generalizing value with
  | nil => exact ⟨hword, le_refl _, by simp [leadingDigits, ofDigits]⟩
  | cons c rest ih =>
    simp only [leadingDigits]
    split_ifs with hfits
    · obtain ⟨hkept, hshorter, hbelow⟩ := ih hfits
      refine ⟨hkept, by rw [List.length_cons]; omega, hbelow.trans (le_of_eq ?_)⟩
      rw [ofDigits_cons, List.length_cons]
      ring
    · exact ⟨hword, le_refl _, Nat.le_add_right _ _⟩

end QuerySurface.Json
