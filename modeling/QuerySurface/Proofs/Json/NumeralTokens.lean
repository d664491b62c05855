import QuerySurface.Proofs.Json.Numerals

/-!
# Tokens of numerals

A well-formed numeral is cut into one token whenever what follows cannot belong to it.
-/

namespace QuerySurface.Json

open Decimal Token

/-! ## Scanning step by step -/

/-- What a scan does with one character whose step goes on. -/
theorem Token.scan_cons {mode next : Mode} {c : Char} {rest : List Char} {tokens : List Token}
    (h : step mode c rest = (tokens, some next)) :
    scan mode (c :: rest) = tokens ++ scan next rest := by
  rw [scan, h]

/-- The rest of a text that ends a number: nothing, or a character that no number goes on with. -/
def Stops (rest : List Char) : Prop :=
  ∀ c ∈ rest.head?, c.isDigit = false ∧ c ≠ '.' ∧ c ≠ 'e' ∧ c ≠ 'E'

/-- The end of a text ends a number. -/
theorem Stops.nil : Stops [] :=
  nofun

/-- The digits, one by one. -/
theorem isDigit_cases {c : Char} (h : c.isDigit = true) :
    c ∈ ['0', '1', '2', '3', '4', '5', '6', '7', '8', '9'] := by
  have hrange := Char.isDigit_iff_toNat.mp h
  change 48 ≤ c.toNat ∧ c.toNat ≤ 57 at hrange
  have hevery : ∀ n ≤ 57, 48 ≤ n →
      Char.ofNat n ∈ ['0', '1', '2', '3', '4', '5', '6', '7', '8', '9'] := by decide
  have := hevery c.toNat hrange.2 hrange.1
  rwa [Char.ofNat_toNat] at this

/-- A digit other than zero begins a numeral. -/
theorem Token.start_digit {c : Char} (hdigit : c.isDigit = true) (hnonzero : c ≠ '0') :
    start c = ([], some (.numeral .whole ⟨false, [c], none, none⟩)) := by
  have hcases := isDigit_cases hdigit
  simp only [List.mem_cons, List.not_mem_nil, or_false] at hcases
  obtain rfl | rfl | rfl | rfl | rfl | rfl | rfl | rfl | rfl | rfl := hcases
  · exact absurd rfl hnonzero
  all_goals rfl

/-! ## Parts of a numeral -/

section parts

variable {sofar : Numeral} {row rest : List Char}

/-- Digits go on in a part that takes digits. -/
theorem scan_digits {part : Part} (extended : List Char → Numeral)
    (htakes : ∀ c done, c.isDigit = true →
      extend (extended done) c part = some (part, extended (c :: done)))
    (hdigits : AllDigits row) (done : List Char) :
    scan (.numeral part (extended done)) (row ++ rest) =
      scan (.numeral part (extended (row.reverse ++ done))) rest := by
  induction row generalizing done with
  | nil => rfl
  | cons c row ih =>
    have hfirst := htakes c done (hdigits c List.mem_cons_self)
    have hgo : step (.numeral part (extended done)) c (row ++ rest) =
        ([], some (.numeral part (extended (c :: done)))) := by
      simp only [step, hfirst]
    rw [List.cons_append, Token.scan_cons hgo, List.nil_append,
      ih (fun d hmem => hdigits d (List.mem_cons_of_mem c hmem))]
    simp

/-- The part that digits in front of the point end in. -/
def wholePart (row : List Char) : Part :=
  if row = ['0'] then .zero else .whole

/-- The sign and the first digit. -/
theorem scan_first (negative : Bool) {c : Char} (hdigit : c.isDigit = true) :
    scan .between ((if negative then ['-'] else []) ++ c :: rest) =
      scan (.numeral (if c = '0' then .zero else .whole) ⟨negative, [c], none, none⟩) rest := by
  by_cases hzero : c = '0'
  · subst hzero
    cases negative <;> rfl
  · rw [if_neg hzero]
    cases negative with
    | false =>
      have hfirst : step .between c rest =
          ([], some (.numeral .whole ⟨false, [c], none, none⟩)) := start_digit hdigit hzero
      exact Token.scan_cons hfirst
    | true =>
      have hsign : step (.numeral .sign ⟨true, [], none, none⟩) c rest =
          ([], some (.numeral .whole ⟨true, [c], none, none⟩)) := by
        simp [step, extend, hzero, hdigit]
      exact Token.scan_cons hsign

/-- The sign and the digits in front of the point. -/
theorem scan_whole (negative : Bool) (hdigits : DigitRow row)
    (hleading : row.head? = some '0' → row = ['0']) :
    scan .between ((if negative then ['-'] else []) ++ row ++ rest) =
      scan (.numeral (wholePart row) ⟨negative, row.reverse, none, none⟩) rest := by
  obtain ⟨c, more, rfl⟩ := List.exists_cons_of_ne_nil hdigits.1
  rw [List.append_assoc, List.cons_append, scan_first negative (hdigits.2 c List.mem_cons_self)]
  by_cases hzero : c = '0'
  · subst hzero
    obtain rfl : more = [] := (List.cons.inj (hleading rfl)).2
    rfl
  · have hpart : wholePart (c :: more) = .whole :=
      if_neg fun halone => hzero (List.cons.inj halone).1
    rw [if_neg hzero, hpart, List.reverse_cons]
    refine scan_digits (fun done => ⟨negative, done, none, none⟩) ?_
      (fun d hmem => hdigits.2 d (List.mem_cons_of_mem c hmem)) [c]
    intro d done hdigit
    simp [extend, hdigit]

/-- A point and the digits behind it. -/
theorem scan_fraction {part : Part} (hfront : part = .zero ∨ part = .whole)
    (hdigits : DigitRow row) :
    scan (.numeral part sofar) ('.' :: (row ++ rest)) =
      scan (.numeral .fraction { sofar with fraction := some row.reverse }) rest := by
  obtain ⟨c, more, rfl⟩ := List.exists_cons_of_ne_nil hdigits.1
  have hfirst := hdigits.2 c List.mem_cons_self
  have hpoint : step (.numeral part sofar) '.' (c :: more ++ rest) =
      ([], some (.numeral .point sofar)) := by
    obtain rfl | rfl := hfront <;> rfl
  have hdigit : step (.numeral .point sofar) c (more ++ rest) =
      ([], some (.numeral .fraction { sofar with fraction := some [c] })) := by
    simp [step, extend, hfirst]
  rw [Token.scan_cons hpoint, List.nil_append, List.cons_append, Token.scan_cons hdigit,
    List.nil_append, List.reverse_cons]
  refine scan_digits (fun done => { sofar with fraction := some done }) ?_
    (fun d hmem => hdigits.2 d (List.mem_cons_of_mem c hmem)) [c]
  intro d done hdigit
  simp [extend, hdigit]

/-- The exponent. -/
theorem scan_exponent {part : Part} (negative : Bool)
    (hfront : part = .zero ∨ part = .whole ∨ part = .fraction) (hdigits : DigitRow row) :
    scan (.numeral part sofar) ('e' :: ((if negative then ['-'] else []) ++ row ++ rest)) =
      scan (.numeral .exponent { sofar with exponent := some (negative, row.reverse) }) rest := by
  obtain ⟨c, more, rfl⟩ := List.exists_cons_of_ne_nil hdigits.1
  have hfirst := hdigits.2 c List.mem_cons_self
  have hmark (rest : List Char) : step (.numeral part sofar) 'e' rest =
      ([], some (.numeral .mark sofar)) := by
    obtain rfl | rfl | rfl := hfront <;> rfl
  have hstart : scan (.numeral .mark sofar)
        ((if negative then ['-'] else []) ++ c :: more ++ rest) =
      scan (.numeral .exponent { sofar with exponent := some (negative, [c]) }) (more ++ rest) := by
    cases negative with
    | false =>
      have hnotSign : c ≠ '+' ∧ c ≠ '-' := by
        constructor <;> rintro rfl <;> exact absurd hfirst (by decide)
      have hdigit : step (.numeral .mark sofar) c (more ++ rest) =
          ([], some (.numeral .exponent { sofar with exponent := some (false, [c]) })) := by
        simp [step, extend, hfirst, hnotSign]
      exact Token.scan_cons hdigit
    | true =>
      have hsign : step (.numeral .mark sofar) '-' (c :: more ++ rest) =
          ([], some (.numeral .markSign { sofar with exponent := some (true, []) })) := rfl
      have hdigit : step (.numeral .markSign { sofar with exponent := some (true, []) }) c
          (more ++ rest) =
          ([], some (.numeral .exponent { sofar with exponent := some (true, [c]) })) := by
        simp [step, extend, extend.moreExponent, hfirst]
      exact (Token.scan_cons hsign).trans (Token.scan_cons hdigit)
  rw [Token.scan_cons (hmark _), List.nil_append, hstart, List.reverse_cons]
  refine scan_digits (fun done => { sofar with exponent := some (negative, done) }) ?_
    (fun d hmem => hdigits.2 d (List.mem_cons_of_mem c hmem)) [c]
  intro d done hdigit
  simp [extend, extend.moreExponent, hdigit]

/-- The end of a number. -/
theorem scan_end {part : Part} (hcomplete : part.complete = true) (hstops : Stops rest) :
    scan (.numeral part sofar) rest = finished sofar :: scan .between rest := by
  cases rest with
  | nil => simp [scan, finish, hcomplete]
  | cons c rest =>
    obtain ⟨hdigit, hpoint, hsmall, hcapital⟩ := hstops c rfl
    have hended : extend sofar c part = none := by
      cases part <;> simp [extend, extend.afterWhole, extend.afterDigits, extend.moreExponent,
        Part.complete, hdigit, hpoint, hsmall, hcapital] at hcomplete ⊢
    rw [scan, scan]
    simp only [step, hended, hcomplete, hdigit, Bool.and_false, Bool.not_false, Bool.and_true,
      ↓reduceIte]
    cases start c with
    | mk tokens next => cases next <;> rfl

end parts

/-- A numeral is one token. -/
theorem scan_numeral {numeral : Numeral} (hproper : numeral.Proper) {rest : List Char}
    (hstops : Stops rest) :
    scan .between (numeral.written ++ rest) = .numeral numeral :: scan .between rest := by
  obtain ⟨negative, whole, fraction, exponent⟩ := numeral
  have hfront : wholePart whole = .zero ∨ wholePart whole = .whole := by
    unfold wholePart
    split_ifs
    · exact .inl rfl
    · exact .inr rfl
  obtain ⟨part, hgoing, hbehind⟩ : ∃ part, (part = .zero ∨ part = .whole ∨ part = .fraction) ∧
      ∀ rest, scan (.numeral (wholePart whole) ⟨negative, whole.reverse, none, none⟩)
          (fraction.elim [] ('.' :: ·) ++ rest) =
        scan (.numeral part ⟨negative, whole.reverse, fraction.map List.reverse, none⟩) rest := by
    cases fraction with
    | none => exact ⟨_, by tauto, fun _ => rfl⟩
    | some row => exact ⟨_, by tauto, fun _ => scan_fraction hfront (hproper.fraction row rfl)⟩
  obtain ⟨last, hcomplete, hpower⟩ : ∃ last, Part.complete last = true ∧
      scan (.numeral part ⟨negative, whole.reverse, fraction.map List.reverse, none⟩)
          ((exponent.elim [] fun e => 'e' :: ((if e.1 then ['-'] else []) ++ e.2)) ++ rest) =
        scan (.numeral last ⟨negative, whole.reverse, fraction.map List.reverse,
          exponent.map fun e => (e.1, e.2.reverse)⟩) rest := by
    cases exponent with
    | none =>
      refine ⟨part, ?_, rfl⟩
      obtain rfl | rfl | rfl := hgoing <;> rfl
    | some e => exact ⟨_, rfl, scan_exponent e.1 hgoing (hproper.exponent e rfl)⟩
  unfold Numeral.written
  rw [List.append_assoc, List.append_assoc, scan_whole negative hproper.whole hproper.leading,
    hbehind, hpower, scan_end hcomplete hstops]
  simp [finished, Function.comp_def]

end QuerySurface.Json
