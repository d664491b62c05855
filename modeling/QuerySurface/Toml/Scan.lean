/-!
# Scanning TOML

What is between the values of a text: blanks, comments and line ends. A scan takes a value
off the front of a text and yields what is left, or nothing if there is no such value;
any failure makes the whole text unreadable.
-/

namespace QuerySurface.Toml

/-- Takes something off the front of a text. -/
abbrev Scan (α : Type) := List Char → Option (α × List Char)

/-- White space inside a line. -/
def isBlank (c : Char) : Bool :=
  c == ' ' || c == '\t'

/-- Characters that may stand in a comment: every one but controls, a tab excepted. -/
def isPlain (c : Char) : Bool :=
  c == '\t' || (0x20 ≤ c.toNat && c.toNat != 0x7F)

/-- Drops white space inside a line. -/
def skipBlanks (text : List Char) : List Char :=
  text.dropWhile isBlank

/-- What follows a line end. A carriage return ends a line only together with a line feed. -/
def lineEnd? : List Char → Option (List Char)
  | '\n' :: rest => some rest
  | '\r' :: '\n' :: rest => some rest
  | _ => none

/-- Drops a comment. -/
def skipComment : List Char → List Char
  | '#' :: rest => rest.dropWhile isPlain
  | text => text

/-- What follows a line of which nothing is left but blanks and a comment. -/
def finishLine? (text : List Char) : Option (List Char) :=
  match skipComment (skipBlanks text) with
  | [] => some []
  | rest => lineEnd? rest

/-- Drops blanks, line ends and comments. Inside a comment only plain characters are dropped,
and a comment has to end with its line. -/
def skipGap (comment : Bool) : List Char → List Char
  | [] => []
  | '\n' :: rest => skipGap false rest
  | '\r' :: '\n' :: rest => skipGap false rest
  | c :: rest =>
    if comment then (if isPlain c then skipGap true rest else c :: rest)
    else if isBlank c then skipGap false rest
    else if c = '#' then skipGap true rest
    else c :: rest

/-- Drops blanks and line ends. -/
def skipBreaks : List Char → List Char
  | [] => []
  | '\n' :: rest => skipBreaks rest
  | '\r' :: '\n' :: rest => skipBreaks rest
  | c :: rest => if isBlank c then skipBreaks rest else c :: rest

/-- Takes exactly `count` characters of a class. -/
def exactly (count : Nat) (allowed : Char → Bool) (text : List Char) :
    Option (List Char × List Char) :=
  let front := text.take count
  if front.length = count ∧ front.all allowed then some (front, text.drop count) else none

/-- What is left behind an exact number of characters is no longer than the text. -/
theorem length_le_of_exactly {count : Nat} {allowed : Char → Bool} {text taken rest : List Char}
    (h : exactly count allowed text = some (taken, rest)) : rest.length ≤ text.length := by
  simp only [exactly] at h
  split at h
  · cases h
    simp only [List.length_drop]
    omega
  · cases h

/-- Blanks and line ends never make a text longer. -/
theorem length_skipBreaks_le (text : List Char) : (skipBreaks text).length ≤ text.length := by
  fun_induction skipBreaks text with
  | case1 => simp
  | case2 rest ih => simp only [List.length_cons]; omega
  | case3 rest ih => simp only [List.length_cons]; omega
  | case4 c rest h ih => simp only [List.length_cons]; omega
  | case5 => simp

/-- Dropping blanks never makes a text longer. -/
theorem length_skipBlanks_le (text : List Char) : (skipBlanks text).length ≤ text.length :=
  (List.dropWhile_sublist _).length_le

/-- A line end is at least one character. -/
theorem length_lt_of_lineEnd? {text rest : List Char} (h : lineEnd? text = some rest) :
    rest.length < text.length := by
  unfold lineEnd? at h
  split at h
  · cases h; simp
  · cases h; simp only [List.length_cons]; omega
  · cases h

end QuerySurface.Toml
