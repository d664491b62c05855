import QuerySurface.Toml.Scan
import QuerySurface.Decimal.Nearest

/-!
# Quoted texts

The four ways to quote a text: in double or single quotes, on one line or, with the quotes
tripled, on several. Between double quotes a backslash starts an escape. A text on several
lines may start with a line end that does not count, and ends with up to two quotes in
front of the closing ones.
-/

namespace QuerySurface.Toml

/-- The character of a one-letter escape. -/
def escapeLetter? (c : Char) : Option Char :=
  match c with
  | 'b' => some (Char.ofNat 8)
  | 't' => some '\t'
  | 'n' => some '\n'
  | 'f' => some (Char.ofNat 12)
  | 'r' => some '\r'
  | '"' => some '"'
  | '\\' => some '\\'
  | _ => none

/-- Whether a character is a hexadecimal digit. -/
def isHexDigit (c : Char) : Bool :=
  c.isDigit || ('a' ≤ c.toLower && c.toLower ≤ 'f')

/-- A character that is given by the digits of its code. -/
def ofCode? (digits : List Char) : Option Char :=
  let code := Decimal.ofDigits 16 digits
  if code.isValidChar then some (Char.ofNat code) else none

/-- The character of an escape, behind its backslash. -/
def escape? : Scan Char
  | [] => none
  | c :: rest =>
    if c = 'u' ∨ c = 'U' then do
      let (digits, rest) ← exactly (if c = 'u' then 4 else 8) isHexDigit rest
      let c ← ofCode? digits
      return (c, rest)
    else (escapeLetter? c).map fun it => (it, rest)

/-- An escape is at least one character. -/
theorem length_lt_of_escape? {text rest : List Char} {c : Char}
    (h : escape? text = some (c, rest)) : rest.length < text.length := by
  cases text with
  | nil => simp [escape?] at h
  | cons a tail =>
    simp only [escape?] at h
    split at h
    · simp only [Option.bind_eq_bind, Option.bind_eq_some_iff] at h
      obtain ⟨⟨digits, left⟩, hd, it, _, hr⟩ := h
      have := length_le_of_exactly hd
      cases hr
      simp only [List.length_cons]
      omega
    · obtain ⟨_, _, hr⟩ := Option.map_eq_some_iff.mp h
      cases hr
      simp

/-- Puts a character in front of what is scanned. -/
def front (c : Char) : Option (List Char × List Char) → Option (List Char × List Char) :=
  Option.map fun (text, rest) => (c :: text, rest)

/-- A text in double quotes, behind the opening one. -/
def basicText : Scan (List Char)
  | [] => none
  | c :: rest =>
    if c = '"' then some ([], rest)
    else if c = '\\' then
      match h : escape? rest with
      | some (it, rest') =>
        have : rest'.length < rest.length := length_lt_of_escape? h
        front it (basicText rest')
      | none => none
    else if isPlain c then front c (basicText rest)
    else none
termination_by text => text.length
decreasing_by all_goals (simp only [List.length_cons]; omega)

/-- A text in single quotes, behind the opening one. -/
def literalText : Scan (List Char)
  | [] => none
  | c :: rest =>
    if c = '\'' then some ([], rest)
    else if isPlain c then front c (literalText rest)
    else none

/-- The end of a text between tripled quotes, if there is one at the front: quotes that still
belong to the text, and what follows the closing ones. -/
def closing? (quote : Char) (text : List Char) : Option (List Char × List Char) :=
  let count := (text.takeWhile (· == quote)).length
  if 3 ≤ count then some (List.replicate (count - 3) quote, text.drop count) else none

/-- Most quotes that a text between tripled quotes can end with. -/
def extraQuotes : Nat := 2

/-- A text between tripled double quotes, behind the opening ones. A backslash at the end of a
line takes all white space behind it away. -/
def basicLines (text : List Char) : Option (List Char × List Char) :=
  match text with
  | [] => none
  | c :: rest =>
    if c = '"' then
      match closing? '"' (c :: rest) with
      | some (quotes, left) => if quotes.length ≤ extraQuotes then some (quotes, left) else none
      | none => front c (basicLines rest)
    else if c = '\\' then
      match h : lineEnd? (skipBlanks rest) with
      | some next =>
        have : (skipBreaks next).length ≤ rest.length :=
          Nat.le_trans (length_skipBreaks_le next)
            (Nat.le_trans (Nat.le_of_lt (length_lt_of_lineEnd? h)) (length_skipBlanks_le rest))
        basicLines (skipBreaks next)
      | none =>
        match h : escape? rest with
        | some (it, next) =>
          have : next.length < rest.length := length_lt_of_escape? h
          front it (basicLines next)
        | none => none
    else
      match h : lineEnd? (c :: rest) with
      | some next =>
        have : next.length < (c :: rest).length := length_lt_of_lineEnd? h
        front '\n' (basicLines next)
      | none => if isPlain c then front c (basicLines rest) else none
termination_by text.length
decreasing_by
  all_goals first
    | assumption
    | (simp only [List.length_cons]; omega)

/-- A text between tripled single quotes, behind the opening ones. -/
def literalLines (text : List Char) : Option (List Char × List Char) :=
  match text with
  | [] => none
  | c :: rest =>
    if c = '\'' then
      match closing? '\'' (c :: rest) with
      | some (quotes, left) => if quotes.length ≤ extraQuotes then some (quotes, left) else none
      | none => front c (literalLines rest)
    else
      match h : lineEnd? (c :: rest) with
      | some next =>
        have : next.length < (c :: rest).length := length_lt_of_lineEnd? h
        front '\n' (literalLines next)
      | none => if isPlain c then front c (literalLines rest) else none
termination_by text.length
decreasing_by
  all_goals first
    | assumption
    | (simp only [List.length_cons]; omega)

/-- A text without the line end that may stand right behind the opening quotes. -/
def dropFirstBreak (text : List Char) : List Char :=
  (lineEnd? text).getD text

/-- A quoted text on one line. -/
def lineText : Scan (List Char)
  | '"' :: rest => basicText rest
  | '\'' :: rest => literalText rest
  | _ => none

/-- A quoted text. -/
def quotedText (text : List Char) : Option (List Char × List Char) :=
  match text with
  | '"' :: '"' :: '"' :: rest => basicLines (dropFirstBreak rest)
  | '\'' :: '\'' :: '\'' :: rest => literalLines (dropFirstBreak rest)
  | text => lineText text

end QuerySurface.Toml
