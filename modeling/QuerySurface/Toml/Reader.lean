import QuerySurface.Toml.Numeral
import QuerySurface.Toml.Section

/-!
# Reading TOML

Keys, values, lists and inline tables, and the lines that a text is made of. Lists and inline
tables nest up to a limit, and so do keys. The whole text is read or nothing is.
-/

namespace QuerySurface.Toml

/-- Opens an inline table. -/
def tableStart : Char := Char.ofNat 123

/-- Closes an inline table. -/
def tableEnd : Char := Char.ofNat 125

/-- Values nest less deep than this, and keys have fewer parts. -/
def nestingLimit : Nat := 80

/-- Characters of a key without quotes. -/
def isBare (c : Char) : Bool :=
  c.isAlphanum || c == '_' || c == '-'

/-- One part of a key. -/
def keyPart (text : List Char) : Option (String × List Char) :=
  match text with
  | '"' :: _ | '\'' :: _ => (lineText text).map fun (key, rest) => (String.ofList key, rest)
  | _ =>
    let name := text.takeWhile isBare
    if name.isEmpty then none else some (String.ofList name, text.dropWhile isBare)

/-- The parts of a key, at most `steps` of them, and the blanks behind. -/
def keyParts : (steps : Nat) → Scan (List String)
  | 0, _ => none
  | steps + 1, text => do
    let (part, rest) ← keyPart (skipBlanks text)
    match skipBlanks rest with
    | '.' :: rest => do
      let (parts, rest) ← keyParts steps rest
      return (part :: parts, rest)
    | rest => return ([part], rest)

/-- A key: parts with points between them. -/
def key (text : List Char) : Option (List String × List Char) :=
  keyParts (nestingLimit - 1) text

/-- A value that holds no others. -/
def scalar (text : List Char) : Option (Value × List Char) :=
  match text with
  | '"' :: _ | '\'' :: _ => (quotedText text).map fun (it, rest) => (.text (String.ofList it), rest)
  | _ =>
    match ['t', 'r', 'u', 'e'].isPrefixOf? text, ['f', 'a', 'l', 's', 'e'].isPrefixOf? text with
    | some rest, _ => some (.flag true, rest)
    | none, some rest => some (.flag false, rest)
    | none, none => numeral text

/-- Elements of a list up to its closing bracket, at most `steps` of them. -/
def elements (element : Scan Value) : (steps : Nat) → Scan (List Value)
  | 0, _ => none
  | steps + 1, text =>
    match skipGap false text with
    | ']' :: rest => some ([], rest)
    | text => do
      let (item, rest) ← element text
      match skipGap false rest with
      | ',' :: rest => do
        let (items, rest) ← elements element steps rest
        return (item :: items, rest)
      | ']' :: rest => return ([item], rest)
      | _ => none

/-- A key, an equals sign and a value, with blanks between and behind them. -/
def assignment (element : Scan Value) : Scan (List String × Value) := fun text => do
  let (path, rest) ← key text
  match rest with
  | '=' :: rest => do
    let (value, rest) ← element (skipBlanks rest)
    return ((path, value), skipBlanks rest)
  | _ => none

/-- Assignments up to a closing brace, at least one and at most `steps` of them. -/
def assignments (element : Scan Value) : (steps : Nat) → Entries → Scan Entries
  | 0, _, _ => none
  | steps + 1, entries, text => do
    let ((path, value), rest) ← assignment element text
    let entries ← Entries.assignPath path value .opened entries
    match rest with
    | ',' :: rest => assignments element steps entries rest
    | c :: rest => if c = tableEnd then return (entries, rest) else none
    | [] => none

/-- A value, inside which lists and inline tables nest up to `room` deep. -/
def value : (room : Nat) → Scan Value
  | 0, text => scalar text
  | room + 1, text =>
    match text with
    | '[' :: rest => do
      let (items, rest) ← elements (value room) rest.length.succ rest
      return (.array items, rest)
    | c :: rest =>
      if c = tableStart then
        match skipBlanks rest with
        | [] => none
        | d :: behind =>
          if d = tableEnd then some (.table [], behind)
          else do
            let (entries, rest) ← assignments (value room) rest.length.succ [] rest
            return (.table (entriesToValues entries), rest)
      else scalar text
    | [] => none

/-- A header: the path between brackets, single ones for a table and double ones for one more
table of a list. Nothing else stands on its line. -/
def header (sections : Sections) (text : List Char) : Option (Sections × List Char) :=
  match text with
  | '[' :: '[' :: rest => do
    let (path, rest) ← key rest
    let rest ← [']', ']'].isPrefixOf? rest
    let sections ← sections.openBy Entries.openElement path
    return (sections, ← finishLine? rest)
  | '[' :: rest => do
    let (path, rest) ← key rest
    let rest ← [']'].isPrefixOf? rest
    let sections ← sections.openBy Entries.openTable path
    return (sections, ← finishLine? rest)
  | _ => none

/-- A line: a header, an assignment, or nothing but a comment. -/
def line (sections : Sections) (text : List Char) : Option (Sections × List Char) :=
  match skipBlanks text with
  | [] => some (sections, [])
  | c :: rest =>
    if c = '[' then header sections (c :: rest)
    else if c = '#' ∨ c = '\n' ∨ c = '\r' then (finishLine? (c :: rest)).map (sections, ·)
    else do
      let ((path, value), rest) ← assignment (value (nestingLimit - 1)) (c :: rest)
      let sections ← sections.assign path value
      return (sections, ← finishLine? rest)

/-- Lines, at most `steps` of them. -/
def lines : (steps : Nat) → Sections → List Char → Option Sections
  | _, sections, [] => some sections
  | 0, _, _ :: _ => none
  | steps + 1, sections, text => do
    let (sections, rest) ← line sections text
    lines steps sections rest

/-- A mark that may stand in front of a text and says nothing. -/
def byteOrderMark : Char := Char.ofNat 0xFEFF

/-- A text without the mark in front. -/
def dropMark : List Char → List Char
  | [] => []
  | c :: rest => if c = byteOrderMark then rest else c :: rest

/-- Reads a text: the table that it writes, if it is well formed. -/
def Value.parse? (source : String) : Option Value :=
  let text := dropMark source.toList
  (lines text.length.succ .empty text).map fun sections => .table (entriesToValues sections.root)

end QuerySurface.Toml
