import QuerySurface.Json.Value

/-!
# Writing JSON

Two written forms of a value: compact, without any white space, and indented, with two
spaces to a level and empty lists and objects kept on one line.
-/

namespace QuerySurface.Json

/-- Digits of a code point below 256, two hexadecimal digits. -/
def twoHexDigits (code : Nat) : List Char :=
  [Nat.digitChar (code / 16), Nat.digitChar (code % 16)]

/-- A character inside a written text: quotes, backslashes and control characters are escaped. -/
def escapedChar (c : Char) : List Char :=
  if c = '"' then ['\\', '"']
  else if c = '\\' then ['\\', '\\']
  else if c.toNat = 8 then ['\\', 'b']
  else if c.toNat = 12 then ['\\', 'f']
  else if c = '\n' then ['\\', 'n']
  else if c = '\r' then ['\\', 'r']
  else if c = '\t' then ['\\', 't']
  else if c.toNat < 32 then ['\\', 'u', '0', '0'] ++ twoHexDigits c.toNat
  else [c]

/-- A written text. -/
def writtenText (text : String) : List Char :=
  '"' :: text.toList.flatMap escapedChar ++ ['"']

/-- A written number. -/
def Number.written : Number → List Char
  | .integer value => (toString value).toList
  | .real value => (Decimal.dataText value).toList

/-- Opens an object. -/
def leftBrace : Char := Char.ofNat 123

/-- Closes an object. -/
def rightBrace : Char := Char.ofNat 125

mutual

/-- Compact form of a value. -/
def Value.compact : Value → List Char
  | .null => ['n', 'u', 'l', 'l']
  | .flag true => ['t', 'r', 'u', 'e']
  | .flag false => ['f', 'a', 'l', 's', 'e']
  | .number value => value.written
  | .text value => writtenText value
  | .array items => '[' :: compactItems items ++ [']']
  | .object members => leftBrace :: compactMembers members ++ [rightBrace]

/-- Compact elements, with commas between them. -/
def compactItems : List Value → List Char
  | [] => []
  | [item] => item.compact
  | item :: rest => item.compact ++ ',' :: compactItems rest

/-- Compact members, with commas between them. -/
def compactMembers : List (String × Value) → List Char
  | [] => []
  | [(key, value)] => writtenText key ++ ':' :: value.compact
  | (key, value) :: rest => writtenText key ++ ':' :: value.compact ++ ',' :: compactMembers rest

end

/-- A line break and the indentation of a level. -/
def lineBreak (level : Nat) : List Char :=
  '\n' :: List.replicate (2 * level) ' '

mutual

/-- Indented form of a value that stands at a level of nesting. -/
def Value.indented (level : Nat) : Value → List Char
  | .null => ['n', 'u', 'l', 'l']
  | .flag true => ['t', 'r', 'u', 'e']
  | .flag false => ['f', 'a', 'l', 's', 'e']
  | .number value => value.written
  | .text value => writtenText value
  | .array [] => ['[', ']']
  | .array items => '[' :: indentedItems (level + 1) items ++ lineBreak level ++ [']']
  | .object [] => [leftBrace, rightBrace]
  | .object members =>
    leftBrace :: indentedMembers (level + 1) members ++ lineBreak level ++ [rightBrace]

/-- Elements, each on lines of its own. -/
def indentedItems (level : Nat) : List Value → List Char
  | [] => []
  | [item] => lineBreak level ++ item.indented level
  | item :: rest => lineBreak level ++ item.indented level ++ ',' :: indentedItems level rest

/-- Members, each on lines of its own. -/
def indentedMembers (level : Nat) : List (String × Value) → List Char
  | [] => []
  | [(key, value)] => lineBreak level ++ writtenText key ++ ':' :: ' ' :: value.indented level
  | (key, value) :: rest =>
    lineBreak level ++ writtenText key ++ ':' :: ' ' :: value.indented level ++
      ',' :: indentedMembers level rest

end

/-- Compact text of a value. -/
def Value.print (value : Value) : String :=
  String.ofList value.compact

/-- Indented text of a value. -/
def Value.pretty (value : Value) : String :=
  String.ofList (value.indented 0)

end QuerySurface.Json
