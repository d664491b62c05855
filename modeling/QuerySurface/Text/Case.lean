import QuerySurface.Text.Letter

/-!
# Case of words

Capitalising a name, lowering a whole text, and comparing texts with the case of ASCII
letters ignored.
-/

namespace QuerySurface.Text

/-- Puts the first character into upper case and leaves the rest. -/
def capitalize (text : String) : String :=
  match text.toList with
  | [] => ""
  | c :: rest => String.ofList (Letter.upper c ++ rest)

/-- Whether the first character that is not skipped, if any, has a case. -/
def meetsCased (text : List Char) : Bool :=
  ((text.dropWhile Letter.ignorable).head?.map Letter.cased).getD false

/-- Lower case of the characters that follow `before`, which is read from its end. A sigma
that ends a word, with a cased letter before it and none behind, is a final sigma; on both
sides ignorable characters are skipped. -/
def lowerAfter (before : List Char) : List Char → List Char
  | [] => []
  | c :: rest =>
    let final := c == 'Σ' && meetsCased before && !meetsCased rest
    (if final then ['ς'] else Letter.lower c) ++ lowerAfter (c :: before) rest

/-- Lower case of a text. -/
def lowercase (text : String) : String :=
  String.ofList (lowerAfter [] text.toList)

/-- Lower case of the ASCII letters of a text; every other character stays. -/
def lowerAscii (text : String) : String :=
  String.ofList (text.toList.map Char.toLower)

/-- Whether two texts differ at most in the case of ASCII letters. -/
def equalIgnoringCase (a b : String) : Bool :=
  lowerAscii a == lowerAscii b

end QuerySurface.Text
