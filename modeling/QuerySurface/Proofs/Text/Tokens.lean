import QuerySurface.Text.Blank
import QuerySurface.Text.Identifier
import Mathlib.Data.List.Basic
import Mathlib.Data.List.DropRight

/-!
# Tokens in white space

A row of tokens may be written with white space around it and between its tokens. Trimming a text
changes nothing about the row that it writes, and a row is read from either end: once the text is
trimmed there, the token at that end is what the text begins or ends with. Names are the tokens
that the rows of this library are about.
-/

namespace QuerySurface.Text

/-- White space and nothing else. -/
def Blanks (text : List Char) : Prop :=
  ∀ c ∈ text, isBlank c = true

/-- A token: a text that is not empty and holds no white space. -/
structure Solid (token : List Char) : Prop where
  /-- It has a character. -/
  ne_nil : token ≠ []
  /-- None of its characters is white space. -/
  not_blank : ∀ c ∈ token, isBlank c = false

/-- Tokens written one after another, with optional white space around and between them. -/
inductive Spaced : List (List Char) → List Char → Prop
  | gap {text : List Char} : Blanks text → Spaced [] text
  | token {gap token text : List Char} {tokens : List (List Char)} :
    Blanks gap → Spaced tokens text → Spaced (token :: tokens) (gap ++ token ++ text)

/-- At least one ASCII letter, digit or underscore, the first of which is not a digit. -/
structure IsName (name : List Char) : Prop where
  /-- It has a character. -/
  ne_nil : name ≠ []
  /-- The characters it is made of. -/
  mem : ∀ c ∈ name,
    ('a' ≤ c ∧ c ≤ 'z') ∨ ('A' ≤ c ∧ c ≤ 'Z') ∨ ('0' ≤ c ∧ c ≤ '9') ∨ c = '_'
  /-- It does not start with a digit. -/
  head : ∀ c ∈ name.head?, ¬('0' ≤ c ∧ c ≤ '9')

variable {text rest front back gap token name : List Char} {tokens others : List (List Char)}

/-! ## White space at the ends -/

/-- Nothing is white space. -/
theorem blanks_nil : Blanks [] := by
  simp [Blanks]

/-- White space is white space read backwards. -/
theorem Blanks.reverse (h : Blanks text) : Blanks text.reverse :=
  fun c hc => h c (List.mem_reverse.mp hc)

/-- Trimming in front takes white space away. -/
theorem exists_trimStart (text : List Char) :
    ∃ gap, Blanks gap ∧ text = gap ++ trimStart text :=
  ⟨text.takeWhile isBlank, fun _ hc => List.mem_takeWhile_imp hc,
    List.takeWhile_append_dropWhile.symm⟩

/-- Trimming in front passes over white space. -/
theorem trimStart_gap (h : Blanks gap) : trimStart (gap ++ text) = trimStart text := by
  induction gap with
  | nil => rfl
  | cons c rest ih =>
    have hc : isBlank c = true := h c List.mem_cons_self
    rw [List.cons_append, trimStart, List.dropWhile_cons_of_pos hc]
    exact ih fun d hd => h d (List.mem_cons_of_mem _ hd)

/-- Trimming in front stops at a token. -/
theorem trimStart_solid (h : Solid token) (text : List Char) :
    trimStart (token ++ text) = token ++ text := by
  obtain ⟨c, rest, rfl⟩ := List.exists_cons_of_ne_nil h.ne_nil
  exact List.dropWhile_cons_of_neg (by simp [h.not_blank c List.mem_cons_self])

/-- Trimming behind is trimming in front, read backwards. -/
theorem reverse_trimEnd (text : List Char) : (trimEnd text).reverse = trimStart text.reverse :=
  List.reverse_reverse _

/-- The front of a text that is trimmed in front is trimmed there too. -/
theorem trimStart_front (h : trimStart (front ++ back) = front ++ back) :
    trimStart front = front := by
  rw [trimStart, List.dropWhile_eq_self_iff] at h ⊢
  intro hl
  have hfirst := h (by rw [List.length_append]; omega)
  rwa [List.getElem_append_left hl] at hfirst

/-- A text without white space at its ends. -/
structure Trimmed (text : List Char) : Prop where
  /-- None in front. -/
  start : trimStart text = text
  /-- None behind. -/
  stop : trimEnd text = text

/-- Trimming behind leaves nothing to trim there, nor in front if there was nothing. -/
theorem trimmed_trimEnd (h : trimStart text = text) : Trimmed (trimEnd text) := by
  obtain ⟨back, hb⟩ : trimEnd text <+: text := List.rdropWhile_prefix isBlank text
  refine ⟨trimStart_front (hb.symm ▸ h), ?_⟩
  rw [trimEnd, reverse_trimEnd, trimStart, List.dropWhile_idempotent]
  rfl

/-- What is left by trimming has no white space at its ends. -/
theorem trimmed_trim (text : List Char) : Trimmed (trim text) :=
  trimmed_trimEnd (List.dropWhile_idempotent isBlank text)

/-- A text without white space at its ends is left by trimming. -/
theorem Trimmed.trim_eq (h : Trimmed text) : trim text = text := by
  rw [trim, h.start, h.stop]

/-- The last character is dropped exactly from the texts that end with it. -/
theorem dropLast?_eq_some_iff {c : Char} : dropLast? c text = some rest ↔ text = rest ++ [c] := by
  rw [← List.reverse_inj, List.reverse_append, dropLast?]
  cases text.reverse with
  | nil => simp
  | cons last others => by_cases h : last = c <;> simp [h, List.reverse_eq_iff]

/-! ## Rows of tokens -/

/-- White space in front of a row belongs to it. -/
theorem Spaced.gap_append (hg : Blanks gap) (h : Spaced tokens text) :
    Spaced tokens (gap ++ text) := by
  cases h with
  | gap ht => exact .gap (List.forall_mem_append.mpr ⟨hg, ht⟩)
  | token ht hr =>
    rw [← List.append_assoc, ← List.append_assoc]
    exact .token (List.forall_mem_append.mpr ⟨hg, ht⟩) hr

/-- A row written after a row is one row. -/
theorem Spaced.append (hf : Spaced tokens front) (hb : Spaced others back) :
    Spaced (tokens ++ others) (front ++ back) := by
  induction hf with
  | gap hg => exact hb.gap_append hg
  | token hg _ ih =>
    rw [List.append_assoc]
    exact .token hg ih

/-- A token alone is a row. -/
theorem Spaced.single (token : List Char) : Spaced [token] token := by
  have hrow : Spaced [token] ([] ++ token ++ []) := .token blanks_nil (.gap blanks_nil)
  rwa [List.nil_append, List.append_nil] at hrow

/-- A row read backwards is the row of its tokens, each read backwards. -/
theorem Spaced.reverse (h : Spaced tokens text) :
    Spaced (tokens.map List.reverse).reverse text.reverse := by
  induction h with
  | gap hg => exact .gap hg.reverse
  | @token gap token text tokens hg _ ih =>
    rw [List.reverse_append, List.reverse_append, List.map_cons, List.reverse_cons]
    have hlast : Spaced [token.reverse] (token.reverse ++ gap.reverse) := by
      simpa using (Spaced.single token.reverse).append (.gap hg.reverse)
    exact ih.append hlast

/-- A text writes a row exactly if it writes the reversed row backwards. -/
theorem spaced_reverse_iff :
    Spaced (tokens.map List.reverse).reverse text.reverse ↔ Spaced tokens text := by
  refine ⟨fun h => ?_, Spaced.reverse⟩
  simpa [Function.comp_def, List.map_reverse] using h.reverse

/-- A token is a token read backwards. -/
theorem Solid.reverse (h : Solid token) : Solid token.reverse :=
  ⟨by simpa using h.ne_nil, fun c hc => h.not_blank c (List.mem_reverse.mp hc)⟩

/-- The first token of a row is what the text begins with, past the white space in front. -/
theorem spaced_cons_iff (ht : Solid token) :
    Spaced (token :: tokens) text ↔
      ∃ rest, trimStart text = token ++ rest ∧ Spaced tokens rest := by
  constructor
  · rintro ⟨⟩
    rename_i gap rest hg hr
    rw [List.append_assoc, trimStart_gap hg, trimStart_solid ht]
    exact ⟨rest, rfl, hr⟩
  · rintro ⟨rest, he, hr⟩
    obtain ⟨gap, hg, hs⟩ := exists_trimStart text
    rw [hs, he, ← List.append_assoc]
    exact .token hg hr

/-- The last token of a row is what the text ends with, short of the white space behind. -/
theorem spaced_concat_iff (tokens : List (List Char)) (ht : Solid token) :
    Spaced (tokens ++ [token]) text ↔
      ∃ rest, trimEnd text = rest ++ token ∧ Spaced tokens rest := by
  rw [← spaced_reverse_iff, List.map_append, List.reverse_append]
  refine (spaced_cons_iff ht.reverse).trans ⟨?_, ?_⟩
  · rintro ⟨rest, he, hr⟩
    refine ⟨rest.reverse, ?_, ?_⟩
    · have hreverse := congrArg List.reverse he
      rwa [List.reverse_append, List.reverse_reverse] at hreverse
    · exact spaced_reverse_iff.mp (by simpa using hr)
  · rintro ⟨rest, he, hr⟩
    exact ⟨rest.reverse, by rw [← reverse_trimEnd, he, List.reverse_append], hr.reverse⟩

/-- Trimming in front changes nothing about a row. -/
theorem spaced_trimStart_iff (h : ∀ token ∈ tokens, Solid token) :
    Spaced tokens (trimStart text) ↔ Spaced tokens text := by
  constructor
  · intro hs
    obtain ⟨gap, hg, he⟩ := exists_trimStart text
    rw [he]
    exact hs.gap_append hg
  · intro hs
    cases hs with
    | gap hg => exact .gap fun c hc => hg c ((List.dropWhile_sublist _).subset hc)
    | @token gap token rest tokens hg hr =>
      rw [List.append_assoc, trimStart_gap hg, trimStart_solid (h token List.mem_cons_self)]
      exact .token blanks_nil hr

/-- Trimming behind changes nothing about a row. -/
theorem spaced_trimEnd_iff (h : ∀ token ∈ tokens, Solid token) :
    Spaced tokens (trimEnd text) ↔ Spaced tokens text := by
  have hr : ∀ token ∈ (tokens.map List.reverse).reverse, Solid token := by
    intro token ht
    obtain ⟨original, ho, rfl⟩ := List.mem_map.mp (List.mem_reverse.mp ht)
    exact (h original ho).reverse
  rw [← spaced_reverse_iff, reverse_trimEnd, spaced_trimStart_iff hr, spaced_reverse_iff]

/-- Trimming changes nothing about a row. -/
theorem spaced_trim_iff (h : ∀ token ∈ tokens, Solid token) :
    Spaced tokens (trim text) ↔ Spaced tokens text := by
  rw [trim, spaced_trimEnd_iff h, spaced_trimStart_iff h]

/-- A text that writes one token is that token in white space. -/
theorem spaced_single_iff (ht : Solid token) : Spaced [token] text ↔ trim text = token := by
  constructor
  · intro h
    obtain ⟨rest, he, hr⟩ := (spaced_cons_iff ht).mp h
    cases hr with
    | gap hg =>
      apply List.reverse_injective
      rw [trim, he, reverse_trimEnd, List.reverse_append, trimStart_gap hg.reverse]
      simpa using trimStart_solid ht.reverse []
  · intro h
    have htokens : ∀ other ∈ [token], Solid other := by simpa using ht
    rw [← spaced_trim_iff htokens, h]
    exact .single token

/-! ## Names -/

/-- Capitals are the characters from `A` to `Z`. -/
theorem isUpper_iff {c : Char} : c.isUpper = true ↔ 'A' ≤ c ∧ c ≤ 'Z' :=
  decide_eq_true_iff

/-- Small letters are the characters from `a` to `z`. -/
theorem isLower_iff {c : Char} : c.isLower = true ↔ 'a' ≤ c ∧ c ≤ 'z' :=
  Bool.and_eq_true_iff.trans (and_congr decide_eq_true_iff decide_eq_true_iff)

/-- Digits are the characters from `0` to `9`. -/
theorem isDigit_iff {c : Char} : c.isDigit = true ↔ '0' ≤ c ∧ c ≤ '9' :=
  Bool.and_eq_true_iff.trans (and_congr decide_eq_true_iff decide_eq_true_iff)

/-- Word characters are the characters of names. -/
theorem isWordChar_iff {c : Char} : isWordChar c = true ↔
    ('a' ≤ c ∧ c ≤ 'z') ∨ ('A' ≤ c ∧ c ≤ 'Z') ∨ ('0' ≤ c ∧ c ≤ '9') ∨ c = '_' := by
  change ((c.isUpper || c.isLower) || c.isDigit || c == '_') = true ↔ _
  rw [Bool.or_eq_true, Bool.or_eq_true, Bool.or_eq_true, isUpper_iff, isLower_iff, isDigit_iff,
    beq_iff_eq, or_assoc, or_assoc, or_left_comm]

/-- Identifiers are names. -/
theorem isIdentifier_iff : isIdentifier name = true ↔ IsName name := by
  have hhead : name.head?.any Char.isDigit = false ↔ ∀ c ∈ name.head?, ¬('0' ≤ c ∧ c ≤ '9') := by
    cases name <;> simp [← isDigit_iff]
  rw [isIdentifier, isFragment]
  simp only [Bool.and_eq_true, Bool.not_eq_eq_eq_not, Bool.not_true, List.isEmpty_eq_false_iff,
    List.all_eq_true, hhead, isWordChar_iff]
  exact ⟨fun ⟨⟨hne, hmem⟩, hd⟩ => ⟨hne, hmem, hd⟩, fun h => ⟨⟨h.ne_nil, h.mem⟩, h.head⟩⟩

instance (name : List Char) : Decidable (IsName name) :=
  decidable_of_iff _ isIdentifier_iff

/-- The characters of names are not white space. -/
theorem IsName.solid (h : IsName name) : Solid name := by
  refine ⟨h.ne_nil, fun c hc => ?_⟩
  have hrange := h.mem c hc
  rw [Bool.eq_false_iff]
  intro hblank
  simp only [isBlank, Bool.or_eq_true, Bool.and_eq_true, decide_eq_true_eq, beq_iff_eq] at hblank
  simp only [Char.le_def, UInt32.le_iff_toNat_le, ← Char.toNat_inj] at hrange
  change (97 ≤ c.toNat ∧ c.toNat ≤ 122) ∨ (65 ≤ c.toNat ∧ c.toNat ≤ 90) ∨
    (48 ≤ c.toNat ∧ c.toNat ≤ 57) ∨ c.toNat = 95 at hrange
  omega

end QuerySurface.Text
