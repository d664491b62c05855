/-!
# Identifiers

The two classes of ASCII words that names are made of: identifiers, which do not start
with a digit, and the fragments that may extend one.
-/

namespace QuerySurface.Text

/-- ASCII letters, digits and the underscore. -/
def isWordChar (c : Char) : Bool :=
  c.isAlphanum || c == '_'

/-- A non-empty run of word characters. -/
def isFragment (text : List Char) : Bool :=
  !text.isEmpty && text.all isWordChar

/-- A fragment that does not start with a digit. -/
def isIdentifier (text : List Char) : Bool :=
  isFragment text && !text.head?.any Char.isDigit

end QuerySurface.Text
