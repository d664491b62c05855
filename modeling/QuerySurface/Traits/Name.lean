/-!
# Names in Rust

Names of modules, methods and parameters: snake case, with keywords escaped.
-/

namespace QuerySurface.Traits

/-- Snake case of the characters that follow a lower-case letter or digit, or do not. A capital
behind one starts a new word; blanks and hyphens separate words. -/
def snakeFrom (afterLower : Bool) : List Char → List Char
  | [] => []
  | c :: rest =>
    if c.isUpper then
      (if afterLower then ['_'] else []) ++ c.toLower :: snakeFrom false rest
    else if c == '-' || c == ' ' then '_' :: snakeFrom false rest
    else c :: snakeFrom (c.isLower || c.isDigit) rest

/-- Snake case of a name. -/
def snakeCase (name : String) : String :=
  String.ofList (snakeFrom false name.toList)

/-- Keywords, reserved words included. -/
def keywords : List String :=
  [ "as", "break", "const", "continue", "crate", "else", "enum", "extern", "false", "fn", "for",
    "if", "impl", "in", "let", "loop", "match", "mod", "move", "mut", "pub", "ref", "return",
    "static", "struct", "trait", "true", "type", "unsafe", "use", "where", "while", "async",
    "await", "dyn", "abstract", "become", "box", "do", "final", "macro", "override", "priv",
    "typeof", "unsized", "virtual", "yield", "try" ]

/-- Keywords that have no raw form. -/
def pathKeywords : List String :=
  ["self", "Self", "super", "crate"]

/-- Makes an identifier of a word that may be a keyword: the raw form, or a final underscore
where there is none. -/
def escapeKeyword (name : String) : String :=
  if pathKeywords.contains name then name ++ "_"
  else if keywords.contains name then "r#" ++ name
  else name

/-- The identifier of a member or parameter. -/
def identifier (name : String) : String :=
  escapeKeyword (snakeCase name)

end QuerySurface.Traits
