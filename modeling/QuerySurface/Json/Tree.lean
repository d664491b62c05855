import QuerySurface.Json.Token

/-!
# Syntax trees of JSON text

The tree of a text keeps what a reader meets in the order of the text. It exists for every
text: where the text stops being well formed, the place holds the problem, and the lists
and objects around it end there. A reader that walks the tree from left to right therefore
meets the first problem of the text first, whether it is one of form or of meaning, and
parts that nobody asks for can be skipped with their own, more lenient rules.
-/

namespace QuerySurface.Json

mutual

/-- A value as it stands in a text. -/
inductive Tree where
  /-- The absent value. -/
  | null
  /-- A truth value. -/
  | flag (value : Bool)
  /-- A number. -/
  | numeral (value : Numeral)
  /-- A text; sound unless it holds an unpaired surrogate. -/
  | text (value : String) (sound : Bool)
  /-- A list. -/
  | array (items : List Tree) (ending : Ending)
  /-- An object. -/
  | object (members : List Member) (ending : Ending)
  /-- No value: the text ends here or another token stands here. -/
  | missing (problem : Problem)
  /-- A broken text. -/
  | badText (stop : Stop)
  /-- A broken word or number. -/
  | badWord (problem : Problem)

/-- A member of an object. -/
inductive Member where
  /-- The key, whether it is a sound text, and the value. -/
  | mk (key : String) (sound : Bool) (value : Tree)

/-- How a list or an object ends. -/
inductive Ending where
  /-- With its closing bracket. -/
  | closed
  /-- Not at all: another token or the end of the text stands in its place, possibly behind
  a comma. -/
  | broken (afterComma : Bool) (stop : Stop)
  /-- An object with something other than a text in the place of its first key. -/
  | unkeyed (found : Tree)

end

/-- A problem that readers and those who skip meet alike. -/
def Stop.plain (problem : Problem) : Stop :=
  ⟨problem, problem⟩

/-- A list or object that is open. -/
inductive Frame where
  /-- A list with its elements, the last one first. -/
  | items (done : List Tree)
  /-- An object with its members, the last one first. -/
  | members (done : List Member)
  /-- An object that waits for the value of a key. -/
  | member (done : List Member) (key : String) (sound : Bool)

/-- What may come next. -/
inductive Place where
  /-- A value. -/
  | value
  /-- An element of a list just opened, or its end. -/
  | firstItem
  /-- An element behind a comma. -/
  | nextItem
  /-- A key of an object just opened, or its end. -/
  | firstKey
  /-- A key behind a comma. -/
  | nextKey
  /-- A colon behind a key. -/
  | colon
  /-- A comma or a closing bracket; at the top, nothing. -/
  | separator

/-- A tree, and whether anything stands behind it. -/
structure Parsed where
  /-- The tree. -/
  tree : Tree
  /-- Whether a token follows the value. -/
  trailing : Bool

/-- The value that a token is on its own; brackets count as the start of one. -/
def Token.alone : Token → Tree
  | .null => .null
  | .flag value => .flag value
  | .numeral value => .numeral value
  | .text value sound => .text value sound
  | .leftBracket => .array [] (.broken false (.plain .malformed))
  | .leftBrace => .object [] (.broken false (.plain .malformed))
  | .badText stop => .badText stop
  | .badWord problem => .badWord problem
  | .rightBracket | .rightBrace | .comma | .colon => .missing .malformed

namespace Parsed

/-- Puts the last subtree of a text that breaks off into the open lists and objects. -/
def plug (stop : Stop) (tree : Tree) : List Frame → Tree
  | [] => tree
  | .items done :: rest =>
    plug stop (.array (done.reverse ++ [tree]) (.broken false stop)) rest
  | .members done :: rest => plug stop (.object done.reverse (.broken false stop)) rest
  | .member done key sound :: rest =>
    plug stop (.object (done.reverse ++ [.mk key sound tree]) (.broken false stop)) rest

/-- Ends the innermost open list or object where the text breaks off. -/
def breakOff (afterComma : Bool) (stop : Stop) : List Frame → Tree
  | .items done :: rest => plug stop (.array done.reverse (.broken afterComma stop)) rest
  | .members done :: rest => plug stop (.object done.reverse (.broken afterComma stop)) rest
  | frames => plug stop (.missing stop.reading) frames

/-- What a token leads to. -/
inductive Step where
  /-- Reading goes on. -/
  | on (place : Place) (frames : List Frame)
  /-- The value of the text is complete. -/
  | whole (tree : Tree)
  /-- The text is not well formed any more. -/
  | cut (tree : Tree)

/-- Adds a complete value to the innermost open list or object; at the top the text is done. -/
def deliver (tree : Tree) : List Frame → Step
  | .items done :: outer => .on .separator (.items (tree :: done) :: outer)
  | .member done key sound :: outer =>
    .on .separator (.members (.mk key sound tree :: done) :: outer)
  | _ => .whole tree

/-- A token in the place of a value. -/
def stepValue (frames : List Frame) (token : Token) : Step :=
  match token with
  | .leftBracket => .on .firstItem (.items [] :: frames)
  | .leftBrace => .on .firstKey (.members [] :: frames)
  | .badText stop => .cut (plug stop (.badText stop) frames)
  | .badWord problem => .cut (plug (.plain problem) (.badWord problem) frames)
  | .rightBracket | .rightBrace | .comma | .colon =>
    .cut (plug (.plain .malformed) (.missing .malformed) frames)
  | .null | .flag _ | .numeral _ | .text _ _ => deliver token.alone frames

/-- A token at a place, inside the open lists and objects. -/
def step (place : Place) (frames : List Frame) (token : Token) : Step :=
  match place, token, frames with
  | .value, token, frames => stepValue frames token
  | .firstItem, .rightBracket, _ :: outer => deliver (.array [] .closed) outer
  | .firstItem, token, frames => stepValue frames token
  | .nextItem, .rightBracket, frames => .cut (breakOff true (.plain .malformed) frames)
  | .nextItem, token, frames => stepValue frames token
  | .firstKey, .rightBrace, _ :: outer => deliver (.object [] .closed) outer
  | .firstKey, .text key sound, _ :: outer => .on .colon (.member [] key sound :: outer)
  | .firstKey, .badText stop, frames => .cut (breakOff false stop frames)
  | .firstKey, token, frames =>
    .cut (plug (.plain .malformed) (.object [] (.unkeyed token.alone)) (frames.drop 1))
  | .nextKey, .text key sound, .members done :: outer =>
    .on .colon (.member done key sound :: outer)
  | .nextKey, .badText stop, frames => .cut (breakOff true stop frames)
  | .nextKey, _, frames => .cut (breakOff true (.plain .malformed) frames)
  | .colon, .colon, frames => .on .value frames
  | .colon, _, frames => .cut (plug (.plain .malformed) (.missing .malformed) frames)
  | .separator, .comma, .items done :: outer => .on .nextItem (.items done :: outer)
  | .separator, .comma, .members done :: outer => .on .nextKey (.members done :: outer)
  | .separator, .rightBracket, .items done :: outer => deliver (.array done.reverse .closed) outer
  | .separator, .rightBrace, .members done :: outer => deliver (.object done.reverse .closed) outer
  | .separator, _, frames => .cut (breakOff false (.plain .malformed) frames)

/-- The tree of a text that ends at a place. -/
def atEnd (place : Place) (frames : List Frame) : Tree :=
  match place with
  | .value | .colon => plug (.plain .unfinished) (.missing .unfinished) frames
  | .nextItem | .nextKey => breakOff true (.plain .unfinished) frames
  | .firstItem | .firstKey | .separator => breakOff false (.plain .unfinished) frames

/-- Reads tokens on from a place. -/
def run (place : Place) (frames : List Frame) : List Token → Parsed
  | [] => ⟨atEnd place frames, false⟩
  | token :: rest =>
    match step place frames token with
    | .on place frames => run place frames rest
    | .whole tree => ⟨tree, !rest.isEmpty⟩
    | .cut tree => ⟨tree, false⟩

/-- The tree of a text. -/
def ofText (text : String) : Parsed :=
  run .value [] (Token.ofText text)

end Parsed

end QuerySurface.Json
