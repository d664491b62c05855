import QuerySurface.Proofs.Json.NumeralTokens

/-!
# Tokens of written values

Both written forms of a value are layouts that differ in white space only, and both are cut
into the same tokens, provided that the numbers in the value are ones that a text can have.
-/

namespace QuerySurface.Json

open Token

/-! ## Texts -/

/-- A hexadecimal digit is read as what it was written for. -/
theorem hexValue?_digitChar : ∀ n < 16, hexValue? (Nat.digitChar n) = some n := by
  decide

/-- An escaped character is read as the character. -/
theorem scan_escapedChar (c : Char) (chars rest : List Char) :
    scan (.text ⟨chars, none, true⟩) (escapedChar c ++ rest) =
      scan (.text ⟨c :: chars, none, true⟩) rest := by
  have hnamed (n : Nat) (h : c.toNat = n) : c = Char.ofNat n := by
    rw [← h, Char.ofNat_toNat]
  unfold escapedChar
  split_ifs with hquote hbackslash hbackspace hfeed hline hcarriage htab hcontrol
  · subst hquote
    rfl
  · subst hbackslash
    rfl
  · rw [hnamed 8 hbackspace]
    rfl
  · rw [hnamed 12 hfeed]
    rfl
  · subst hline
    rfl
  · subst hcarriage
    rfl
  · subst htab
    rfl
  · have hhigh := hexValue?_digitChar (c.toNat / 16) (by omega)
    have hlow := hexValue?_digitChar (c.toNat % 16) (by omega)
    have hthird (rest : List Char) :
        step (.hex ⟨chars, none, true⟩ 2 0) (Nat.digitChar (c.toNat / 16)) rest =
          ([], some (.hex ⟨chars, none, true⟩ 3 (c.toNat / 16))) := by
      simp [step, hhigh]
    have hunit : c.toNat / 16 * 16 + c.toNat % 16 = c.toNat := Nat.div_add_mod' _ _
    have hfourth : step (.hex ⟨chars, none, true⟩ 3 (c.toNat / 16)) (Nat.digitChar (c.toNat % 16))
        rest = ([], some (.text ⟨c :: chars, none, true⟩)) := by
      simp only [step, hlow, hunit, Draft.pushUnit, ↓reduceIte]
      rw [if_neg (by omega), if_neg (by omega), Char.ofNat_toNat]
    exact (Token.scan_cons (hthird _)).trans (Token.scan_cons hfourth)
  · have hplain : step (.text ⟨chars, none, true⟩) c rest =
        ([], some (.text ⟨c :: chars, none, true⟩)) := by
      simp [step, hquote, hbackslash, hcontrol, Draft.push]
    exact Token.scan_cons hplain

/-- A written text is one token. -/
theorem scan_writtenText (text : String) (rest : List Char) :
    scan .between (writtenText text ++ rest) = .text text true :: scan .between rest := by
  have hbody : ∀ (row chars : List Char),
      scan (.text ⟨chars, none, true⟩) (row.flatMap escapedChar ++ '"' :: rest) =
        .text (String.ofList (row.reverse ++ chars).reverse) true :: scan .between rest := by
    intro row
    induction row with
    | nil => exact fun _ => rfl
    | cons c row ih =>
      intro chars
      rw [List.flatMap_cons, List.append_assoc, scan_escapedChar, ih]
      simp
  have hall := hbody text.toList []
  rw [List.append_nil, List.reverse_reverse, String.ofList_toList] at hall
  rw [← hall]
  simp only [writtenText, List.append_assoc, List.cons_append, List.nil_append]
  rfl

/-! ## Layouts -/

/-- White space of a written form. -/
structure Layout where
  /-- What stands in front of elements, members and closing brackets of a level. -/
  gap : Nat → List Char
  /-- What stands behind the colon. -/
  space : List Char
  /-- Gaps are white space. -/
  blank_gap : ∀ level, ∀ c ∈ gap level, c = '\n' ∨ c = ' '
  /-- So is what stands behind the colon. -/
  blank_space : ∀ c ∈ space, c = '\n' ∨ c = ' '

/-- No white space. -/
def Layout.dense : Layout where
  gap _ := []
  space := []
  blank_gap := by simp
  blank_space := by simp

/-- A line for every element and member. -/
def Layout.lines : Layout where
  gap := lineBreak
  space := [' ']
  blank_gap := by
    intro level c hmem
    obtain rfl | hlater := List.mem_cons.mp hmem
    · exact .inl rfl
    · exact .inr (List.eq_of_mem_replicate hlater)
  blank_space := by simp

mutual

/-- A value in a layout. -/
def Value.laid (layout : Layout) (level : Nat) : Value → List Char
  | .null => ['n', 'u', 'l', 'l']
  | .flag true => ['t', 'r', 'u', 'e']
  | .flag false => ['f', 'a', 'l', 's', 'e']
  | .number value => value.written
  | .text value => writtenText value
  | .array [] => ['[', ']']
  | .array items => '[' :: laidItems layout (level + 1) items ++ layout.gap level ++ [']']
  | .object [] => [leftBrace, rightBrace]
  | .object members =>
    leftBrace :: laidMembers layout (level + 1) members ++ layout.gap level ++ [rightBrace]

/-- Elements in a layout. -/
def laidItems (layout : Layout) (level : Nat) : List Value → List Char
  | [] => []
  | [item] => layout.gap level ++ item.laid layout level
  | item :: rest => layout.gap level ++ item.laid layout level ++ ',' :: laidItems layout level rest

/-- Members in a layout. -/
def laidMembers (layout : Layout) (level : Nat) : List (String × Value) → List Char
  | [] => []
  | [(key, value)] =>
    layout.gap level ++ writtenText key ++ ':' :: layout.space ++ value.laid layout level
  | (key, value) :: rest =>
    layout.gap level ++ writtenText key ++ ':' :: layout.space ++ value.laid layout level ++
      ',' :: laidMembers layout level rest

end

mutual

/-- A value without white space is the dense text of the value. -/
theorem Value.laid_dense (level : Nat) : (value : Value) → value.laid .dense level = value.compact
  | .null | .flag true | .flag false | .number _ | .text _ => rfl
  | .array [] => rfl
  | .array (item :: rest) => by
    rw [Value.laid, Value.compact, laidItems_dense]
    · simp [Layout.dense]
    · simp
  | .object [] => rfl
  | .object (member :: rest) => by
    rw [Value.laid, Value.compact, laidMembers_dense]
    · simp [Layout.dense]
    · simp

/-- Elements without white space are the dense text of the elements. -/
theorem laidItems_dense (level : Nat) :
    (items : List Value) → laidItems .dense level items = compactItems items
  | [] => rfl
  | [item] => by
    rw [laidItems, compactItems, Value.laid_dense]
    rfl
  | item :: next :: rest => by
    rw [laidItems, compactItems, Value.laid_dense, laidItems_dense]
    · rfl
    · simp
    · simp

/-- Members without white space are the dense text of the members. -/
theorem laidMembers_dense (level : Nat) :
    (members : List (String × Value)) → laidMembers .dense level members = compactMembers members
  | [] => rfl
  | [(key, value)] => by
    rw [laidMembers, compactMembers, Value.laid_dense]
    simp [Layout.dense]
  | (key, value) :: next :: rest => by
    rw [laidMembers, compactMembers, Value.laid_dense, laidMembers_dense]
    · simp [Layout.dense]
    · simp
    · simp

end

mutual

/-- A value on lines of its own is the indented text of the value. -/
theorem Value.laid_lines (level : Nat) :
    (value : Value) → value.laid .lines level = value.indented level
  | .null | .flag true | .flag false | .number _ | .text _ => rfl
  | .array [] => rfl
  | .array (item :: rest) => by
    rw [Value.laid, Value.indented, laidItems_lines]
    · rfl
    · simp
    · simp
  | .object [] => rfl
  | .object (member :: rest) => by
    rw [Value.laid, Value.indented, laidMembers_lines]
    · rfl
    · simp
    · simp

/-- Elements on lines of their own are the indented text of the elements. -/
theorem laidItems_lines (level : Nat) :
    (items : List Value) → laidItems .lines level items = indentedItems level items
  | [] => rfl
  | [item] => by
    rw [laidItems, indentedItems, Value.laid_lines]
    rfl
  | item :: next :: rest => by
    rw [laidItems, indentedItems, Value.laid_lines, laidItems_lines]
    · rfl
    · simp
    · simp

/-- Members on lines of their own are the indented text of the members. -/
theorem laidMembers_lines (level : Nat) :
    (members : List (String × Value)) → laidMembers .lines level members =
      indentedMembers level members
  | [] => rfl
  | [(key, value)] => by
    rw [laidMembers, indentedMembers, Value.laid_lines]
    simp [Layout.lines]
  | (key, value) :: next :: rest => by
    rw [laidMembers, indentedMembers, Value.laid_lines, laidMembers_lines]
    · simp [Layout.lines]
    · simp
    · simp

end

/-! ## Tokens of values -/

/-- A value whose numbers are ones that a text can have. -/
inductive Value.Sound : Value → Prop where
  /-- The absent value. -/
  | null : Sound .null
  /-- Truth values. -/
  | flag (value : Bool) : Sound (.flag value)
  /-- Numbers. -/
  | number {value : Number} (sound : value.Sound) : Sound (.number value)
  /-- Texts. -/
  | text (value : String) : Sound (.text value)
  /-- Lists. -/
  | array {items : List Value} (sound : ∀ item ∈ items, Sound item) : Sound (.array items)
  /-- Objects. -/
  | object {members : List (String × Value)} (sound : ∀ member ∈ members, Sound member.2) :
    Sound (.object members)

mutual

/-- Tokens of a value. -/
def Value.tokens : Value → List Token
  | .null => [.null]
  | .flag value => [.flag value]
  | .number value => [.numeral value.numeral]
  | .text value => [.text value true]
  | .array items => .leftBracket :: itemTokens items ++ [.rightBracket]
  | .object members => .leftBrace :: memberTokens members ++ [.rightBrace]

/-- Tokens of elements. -/
def itemTokens : List Value → List Token
  | [] => []
  | [item] => item.tokens
  | item :: rest => item.tokens ++ .comma :: itemTokens rest

/-- Tokens of members. -/
def memberTokens : List (String × Value) → List Token
  | [] => []
  | [(key, value)] => .text key true :: .colon :: value.tokens
  | (key, value) :: rest => .text key true :: .colon :: value.tokens ++ .comma :: memberTokens rest

end

section layout

variable {layout : Layout}

/-- White space between tokens is passed over. -/
theorem scan_blank {blank : List Char} (h : ∀ c ∈ blank, c = '\n' ∨ c = ' ') (rest : List Char) :
    scan .between (blank ++ rest) = scan .between rest := by
  induction blank with
  | nil => rfl
  | cons c more ih =>
    have hlater := ih fun d hmem => h d (List.mem_cons_of_mem c hmem)
    obtain rfl | rfl := h c List.mem_cons_self <;> exact hlater

/-- A number ends at a character that none goes on with. -/
theorem Stops.cons {c : Char} {rest : List Char}
    (h : c.isDigit = false ∧ c ≠ '.' ∧ c ≠ 'e' ∧ c ≠ 'E') : Stops (c :: rest) := by
  rintro d hsame
  cases hsame
  exact h

/-- A gap of a layout ends a number, or what is behind the gap does. -/
theorem Stops.gap (level : Nat) {rest : List Char} (hstops : Stops rest) :
    Stops (layout.gap level ++ rest) := by
  cases hfound : layout.gap level with
  | nil => exact hstops
  | cons c more =>
    have hblank := layout.blank_gap level c (hfound ▸ List.mem_cons_self)
    refine Stops.cons ?_
    obtain rfl | rfl := hblank <;> decide

/-- Elements are cut into the tokens of the elements if each of them is. -/
theorem scan_laidItems {items : List Value}
    (hscans : ∀ item ∈ items, ∀ level rest, Stops rest →
      scan .between (item.laid layout level ++ rest) = item.tokens ++ scan .between rest)
    (level : Nat) {rest : List Char} (hstops : Stops rest) :
    scan .between (laidItems layout level items ++ rest) =
      itemTokens items ++ scan .between rest := by
  induction items with
  | nil => rfl
  | cons item more ih =>
    have hfirst := hscans item List.mem_cons_self level
    cases more with
    | nil =>
      rw [laidItems, List.append_assoc, scan_blank (layout.blank_gap level), hfirst _ hstops]
      rfl
    | cons next more =>
      have hlater := ih fun item hmem => hscans item (List.mem_cons_of_mem _ hmem)
      have hcomma : Stops (',' :: (laidItems layout level (next :: more) ++ rest)) :=
        .cons (by decide)
      rw [laidItems, itemTokens]
      · simp only [List.append_assoc, List.cons_append]
        rw [scan_blank (layout.blank_gap level), hfirst _ hcomma]
        change _ ++ Token.comma :: scan .between _ = _
        rw [hlater]
      all_goals simp

/-- Members are cut into the tokens of the members if each value is. -/
theorem scan_laidMembers {members : List (String × Value)}
    (hscans : ∀ member ∈ members, ∀ level rest, Stops rest →
      scan .between (member.2.laid layout level ++ rest) = member.2.tokens ++ scan .between rest)
    (level : Nat) {rest : List Char} (hstops : Stops rest) :
    scan .between (laidMembers layout level members ++ rest) =
      memberTokens members ++ scan .between rest := by
  induction members with
  | nil => rfl
  | cons member more ih =>
    obtain ⟨key, value⟩ := member
    have hfirst : ∀ rest, Stops rest →
        scan .between (layout.gap level ++ (writtenText key ++ (':' :: (layout.space ++
          (value.laid layout level ++ rest))))) =
        .text key true :: .colon :: (value.tokens ++ scan .between rest) := by
      intro rest hstops
      rw [scan_blank (layout.blank_gap level), scan_writtenText]
      change _ :: Token.colon :: scan .between _ = _
      rw [scan_blank layout.blank_space, hscans (key, value) List.mem_cons_self level rest hstops]
    cases more with
    | nil =>
      rw [laidMembers]
      simp only [List.append_assoc, List.cons_append]
      rw [hfirst rest hstops]
      rfl
    | cons next more =>
      have hlater := ih fun member hmem => hscans member (List.mem_cons_of_mem _ hmem)
      have hcomma : Stops (',' :: (laidMembers layout level (next :: more) ++ rest)) :=
        .cons (by decide)
      rw [laidMembers, memberTokens]
      · simp only [List.append_assoc, List.cons_append]
        rw [hfirst _ hcomma]
        change _ :: _ :: (_ ++ Token.comma :: scan .between _) = _
        rw [hlater]
      all_goals simp

/-- A sound value is cut into its tokens, in every layout. -/
theorem scan_laid {value : Value} (hsound : value.Sound) (level : Nat) {rest : List Char}
    (hstops : Stops rest) :
    scan .between (value.laid layout level ++ rest) = value.tokens ++ scan .between rest := by
  induction hsound generalizing level rest with
  | null => rfl
  | flag value => cases value <;> rfl
  | @number value hsound =>
    rw [Value.laid, Number.written_eq hsound]
    exact scan_numeral value.proper_numeral hstops
  | text value => exact scan_writtenText value rest
  | @array items hsound hscans =>
    cases items with
    | nil => rfl
    | cons item more =>
      have hbracket : Stops (layout.gap level ++ (']' :: rest)) := .gap level (.cons (by decide))
      have hall := scan_laidItems (fun item hmem level rest hstops => hscans item hmem level hstops)
        (level + 1) hbracket
      rw [scan_blank (layout.blank_gap level)] at hall
      rw [Value.laid, Value.tokens]
      · simp only [List.append_assoc, List.cons_append, List.nil_append]
        exact congrArg (Token.leftBracket :: ·) hall
      · simp
  | @object members hsound hscans =>
    cases members with
    | nil => rfl
    | cons member more =>
      have hbrace : Stops (layout.gap level ++ (rightBrace :: rest)) :=
        .gap level (.cons (by decide))
      have hall := scan_laidMembers
        (fun member hmem level rest hstops => hscans member hmem level hstops) (level + 1) hbrace
      rw [scan_blank (layout.blank_gap level)] at hall
      rw [Value.laid, Value.tokens]
      · simp only [List.append_assoc, List.cons_append, List.nil_append]
        exact congrArg (Token.leftBrace :: ·) hall
      · simp

end layout

/-- Tokens of the compact form. -/
theorem ofText_print {value : Value} (hsound : value.Sound) :
    Token.ofText value.print = value.tokens := by
  have hall : scan .between (value.laid .dense 0 ++ []) = value.tokens ++ scan .between [] :=
    scan_laid hsound 0 Stops.nil
  rw [Value.laid_dense, List.append_nil] at hall
  rw [Token.ofText, Value.print, String.toList_ofList, hall]
  exact List.append_nil _

/-- Tokens of the indented form. -/
theorem ofText_pretty {value : Value} (hsound : value.Sound) :
    Token.ofText value.pretty = value.tokens := by
  have hall : scan .between (value.laid .lines 0 ++ []) = value.tokens ++ scan .between [] :=
    scan_laid hsound 0 Stops.nil
  rw [Value.laid_lines, List.append_nil] at hall
  rw [Token.ofText, Value.pretty, String.toList_ofList, hall]
  exact List.append_nil _

end QuerySurface.Json
