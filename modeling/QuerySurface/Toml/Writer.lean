import QuerySurface.Decimal.Double
import QuerySurface.Toml.Reader

/-!
# Writing TOML

The text of a table: each table that has values of its own, or nothing at all, is a section
with a header, and the values of a table stand in front of the tables inside it. A text is
quoted in the plainest way that can hold it; a list of two or more has a line for each
element.
-/

namespace QuerySurface.Toml

/-- The ways to quote a text. -/
inductive Quotes where
  /-- Double quotes, with escapes. -/
  | basic
  /-- Single quotes, without escapes. -/
  | literal
  /-- Tripled double quotes, with escapes. -/
  | basicLines
  /-- Tripled single quotes, without escapes. -/
  | literalLines
  deriving DecidableEq, Repr

/-- Length of the longest run of a character. -/
def longestRun (c : Char) (text : List Char) : Nat :=
  (text.foldl (fun (run : Nat × Nat) d =>
    if d = c then (run.1 + 1, max run.2 (run.1 + 1)) else (0, run.2)) (0, 0)).2

/-- Controls other than tab and line feed, which can only be written as escapes. -/
def needsEscape (c : Char) : Bool :=
  (c.toNat < 0x20 && c != '\t' && c != '\n') || c.toNat == 0x7F

/-- The quotes for a text: the first of the four kinds that shows it as it is, and if none does
a kind with escapes. -/
def Quotes.forText (text : List Char) : Quotes :=
  let escapes := text.any needsEscape
  let backslash := text.contains '\\'
  let broken := text.contains '\n'
  let doubles := longestRun '"' text
  let singles := longestRun '\'' text
  if !escapes && !backslash && doubles == 0 && !broken then .basic
  else if !escapes && singles == 0 && !broken then .literal
  else if !escapes && !backslash && doubles ≤ 2 then .basicLines
  else if !escapes && singles ≤ 2 then .literalLines
  else if broken then .basicLines
  else .basic

/-- Four upper-case hexadecimal digits. -/
def fourHexDigits (code : Nat) : List Char :=
  let digits := (Nat.toDigits 16 code).map Char.toUpper
  List.replicate (4 - digits.length) '0' ++ digits

/-- A character other than a double quote between double quotes; `several` says whether the
text may go over several lines. -/
def escapedChar (several : Bool) (c : Char) : List Char :=
  if c.toNat = 8 then ['\\', 'b']
  else if c = '\t' then ['\\', 't']
  else if c = '\n' then (if several then ['\n'] else ['\\', 'n'])
  else if c.toNat = 12 then ['\\', 'f']
  else if c = '\r' then ['\\', 'r']
  else if c = '\\' then ['\\', '\\']
  else if needsEscape c then ['\\', 'u'] ++ fourHexDigits c.toNat
  else [c]

/-- A text between double quotes, behind `run` double quotes of it. -/
def escaped (several : Bool) (run : Nat) : List Char → List Char
  | [] => []
  | c :: rest =>
    if c = '"' then
      if (if several then extraQuotes else 0) ≤ run then '\\' :: '"' :: escaped several 0 rest
      else '"' :: escaped several (run + 1) rest
    else escapedChar several c ++ escaped several 0 rest

/-- A text in quotes. -/
def Quotes.around (quotes : Quotes) (text : List Char) : List Char :=
  let start := if text.contains '\n' then ['\n'] else []
  match quotes with
  | .basic => '"' :: escaped false 0 text ++ ['"']
  | .literal => '\'' :: text ++ ['\'']
  | .basicLines => ['"', '"', '"'] ++ start ++ escaped true 0 text ++ ['"', '"', '"']
  | .literalLines => ['\'', '\'', '\''] ++ start ++ text ++ ['\'', '\'', '\'']

/-- A written text. -/
def writtenText (text : String) : List Char :=
  (Quotes.forText text.toList).around text.toList

/-- A written part of a key: without quotes if it can be. -/
def writtenKey (key : String) : List Char :=
  let text := key.toList
  let escapes := text.any fun c => needsEscape c || c == '\n'
  if !text.isEmpty && text.all isBare then text
  else if !escapes && !text.contains '\\' && !text.contains '"' then Quotes.basic.around text
  else if !escapes && !text.contains '\'' then Quotes.literal.around text
  else Quotes.basic.around text

/-- A written real number, which always shows that it is no integer. -/
def writtenReal (value : Float) : List Char :=
  let text := ((Decimal.plainText value).toList).map Char.toLower
  if text.contains '.' || text.any Char.isAlpha then text else text ++ ['.', '0']

mutual

/-- A value behind an equals sign or inside a list. -/
def Value.inlined : Value → List Char
  | .text value => writtenText value
  | .integer value => (toString value).toList
  | .real value => writtenReal value
  | .flag value => (toString value).toList
  | .moment value => value.written
  | .array [] => ['[', ']']
  | .array [item] => '[' :: item.inlined ++ [']']
  | .array items => '[' :: inlinedItems items ++ ['\n', ']']
  | .table [] => [tableStart, tableEnd]
  | .table entries => tableStart :: ' ' :: inlinedEntries entries ++ [' ', tableEnd]

/-- Elements of a list, each on a line of its own. -/
def inlinedItems : List Value → List Char
  | [] => []
  | item :: rest => ['\n', ' ', ' ', ' ', ' '] ++ item.inlined ++ ',' :: inlinedItems rest

/-- Entries of an inline table, with commas between them. -/
def inlinedEntries : List (String × Value) → List Char
  | [] => []
  | [(key, value)] => writtenKey key ++ [' ', '=', ' '] ++ value.inlined
  | (key, value) :: rest =>
    writtenKey key ++ [' ', '=', ' '] ++ value.inlined ++ ',' :: ' ' :: inlinedEntries rest

end

/-- Whether a value is a table. -/
def Value.isTable : Value → Bool
  | .table _ => true
  | _ => false

/-- The line of an entry. -/
def entryLine (entry : String × Value) : List Char :=
  writtenKey entry.1 ++ [' ', '=', ' '] ++ entry.2.inlined ++ ['\n']

/-- The header of a section; the outermost table has none. -/
def headerLine (path : List String) : List Char :=
  if path.isEmpty then []
  else '[' :: List.intercalate ['.'] (path.map writtenKey) ++ [']', '\n']

/-- The section of a table: its header and its own values. A table with nothing but tables in
it has none. -/
def ownSection (path : List String) (entries : List (String × Value)) : List (List Char) :=
  let own := entries.filter (!·.2.isTable)
  if own.isEmpty && (path.isEmpty || !entries.isEmpty) then []
  else [headerLine path ++ own.flatMap entryLine]

mutual

/-- The sections of a table and of those inside it. -/
def Value.sections (path : List String) : Value → List (List Char)
  | .table entries => ownSection path entries ++ sectionsInside path entries
  | _ => []

/-- The sections of the tables among entries. -/
def sectionsInside (path : List String) : List (String × Value) → List (List Char)
  | [] => []
  | (key, value) :: rest => value.sections (path ++ [key]) ++ sectionsInside path rest

end

/-- The text of a table, with an empty line between sections. -/
def Value.print (value : Value) : String :=
  String.ofList (List.intercalate ['\n'] (value.sections []))

end QuerySurface.Toml
