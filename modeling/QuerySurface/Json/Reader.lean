import QuerySurface.Json.Tree
import QuerySurface.Json.Numeral
import QuerySurface.Text.Quoted

/-!
# Readers of typed values

A reader takes a tree apart and meets the problems of the text in their order: the first
one is the result. Readers exist for texts, truth values, lists, optional values, choices
between words, records with named fields, and values of any kind. Nesting is limited: a
reader knows how many lists and objects may still be opened. A record may also be written
as a list of its fields in declaration order. Keys that a record does not know are skipped.
-/

namespace QuerySurface.Json

/-- Reads a tree inside which `room` more lists and objects may be opened. -/
abbrev Reader (α : Type) := (room : Nat) → Tree → Except Problem α

/-- Lists and objects that may be open at a time. -/
def nestingLimit : Nat := 127

/-- How a number is called in a message. -/
def Number.described : Number → String
  | .integer value => s!"integer `{value}`"
  | .real value => s!"floating point `{Decimal.dataText value}`"

/-- The message about a value of the wrong type. -/
def wrongType (found expected : String) : Problem :=
  .unfit ("invalid type: " ++ found ++ ", expected " ++ expected)

/-- The problem with a tree that is not what is expected. -/
def Tree.unexpected (tree : Tree) (expected : String) : Problem :=
  match tree with
  | .null => wrongType "null" expected
  | .flag value => wrongType s!"boolean `{value}`" expected
  | .numeral written =>
    match written.value? with
    | some value => wrongType value.described expected
    | none => .malformed
  | .text value true => wrongType ("string " ++ Text.quoted value) expected
  | .text _ false => .malformed
  | .array _ _ => wrongType "sequence" expected
  | .object _ _ => wrongType "map" expected
  | .missing problem => problem
  | .badText stop => stop.reading
  | .badWord problem => problem

mutual

/-- The first problem that one meets who skips a value. -/
def Tree.skip : Tree → Except Problem Unit
  | .null => .ok ()
  | .flag _ => .ok ()
  | .numeral _ => .ok ()
  | .text _ _ => .ok ()
  | .array items ending => do
    skipItems items
    ending.skip
  | .object members ending => do
    skipMembers members
    ending.skip
  | .missing problem => .error problem
  | .badText stop => .error stop.skipping
  | .badWord problem => .error problem

/-- Skips elements. -/
def skipItems : List Tree → Except Problem Unit
  | [] => .ok ()
  | item :: rest => do
    item.skip
    skipItems rest

/-- Skips members. -/
def skipMembers : List Member → Except Problem Unit
  | [] => .ok ()
  | .mk _ _ value :: rest => do
    value.skip
    skipMembers rest

/-- Skips the end of a list or an object. -/
def Ending.skip : Ending → Except Problem Unit
  | .closed => .ok ()
  | .broken _ stop => .error stop.skipping
  | .unkeyed _ => .error .malformed

end

/-- The end of a list or an object whose elements or members were all read one by one. -/
def Ending.read : Ending → Except Problem Unit
  | .closed => .ok ()
  | .broken _ stop => .error stop.reading
  | .unkeyed _ => .error .malformed

/-- The end of a list of which no further element is asked for. -/
def Ending.demandClosed : Ending → Except Problem Unit
  | .closed => .ok ()
  | .broken false stop => .error stop.reading
  | .broken true _ => .error .malformed
  | .unkeyed _ => .error .malformed

namespace Reader

/-- Opens a list or an object. -/
def enter (room : Nat) : Except Problem Nat :=
  match room with
  | 0 => .error .malformed
  | room + 1 => .ok room

/-- A text. -/
def text : Reader String
  | _, .text value true => .ok value
  | _, tree => .error (tree.unexpected "a string")

/-- A truth value. -/
def flag : Reader Bool
  | _, .flag value => .ok value
  | _, tree => .error (tree.unexpected "a boolean")

/-- The absent value. -/
def nothing : Reader Unit
  | _, .null => .ok ()
  | _, tree => .error (tree.unexpected "unit")

/-- A value, or the absent value. -/
def optional {α : Type} (reader : Reader α) : Reader (Option α)
  | _, .null => .ok none
  | room, tree => some <$> reader room tree

/-- Elements one after the other. -/
def items {α : Type} (reader : Reader α) (room : Nat) : List Tree → Except Problem (List α)
  | [] => .ok []
  | tree :: rest => do
    let value ← reader room tree
    let values ← items reader room rest
    return value :: values

/-- A list. -/
def list {α : Type} (reader : Reader α) : Reader (List α)
  | room, .array trees ending => do
    let room ← enter room
    let values ← items reader room trees
    ending.read
    return values
  | _, tree => .error (tree.unexpected "a sequence")

/-- Words in backticks, for the message about an unknown word. -/
def alternatives (words : List String) : String :=
  match words.map (fun word => s!"`{word}`") with
  | [a, b] => "expected " ++ a ++ " or " ++ b
  | quoted => "expected one of " ++ ", ".intercalate quoted

/-- The choice that a word stands for. -/
def choose {α : Type} (choices : List (String × α)) (word : String) : Except Problem α :=
  match choices.find? (fun choice => choice.1 == word) with
  | some choice => .ok choice.2
  | none => .error (.unfit (s!"unknown variant `{word}`, " ++ alternatives (choices.map (·.1))))

/-- One of several words, either as a text or as an object that has the word as its only key,
with no value. -/
def choice {α : Type} (choices : List (String × α)) : Reader α
  | _, .text word true => choose choices word
  | _, .text _ false => .error .malformed
  | _, .badText stop => .error stop.reading
  | _, .missing problem => .error problem
  | room, .object [] ending => do
    let _ ← enter room
    match ending with
    | .closed => .error .malformed
    | .broken _ stop => .error stop.reading
    | .unkeyed found => .error (found.unexpected "variant identifier")
  | room, .object (.mk word sound value :: more) ending => do
    let room ← enter room
    if !sound then .error .malformed
    let chosen ← choose choices word
    nothing room value
    if !more.isEmpty then .error .malformed
    ending.demandClosed
    return chosen
  | _, _ => .error .malformed

/-- A field of a record of type `σ`: reading it changes the record. -/
structure Field (σ : Type) where
  /-- Key of the field. -/
  key : String
  /-- Whether the record is incomplete without it. -/
  needed : Bool
  /-- Reads the value of the field into a record. -/
  update : Nat → Tree → σ → Except Problem σ

/-- A field that has to be there. -/
def Field.must {σ α : Type} (key : String) (reader : Reader α) (put : α → σ → σ) : Field σ :=
  ⟨key, true, fun room tree record => (put · record) <$> reader room tree⟩

/-- A field that may be absent; the blank record holds its default. -/
def Field.may {σ α : Type} (key : String) (reader : Reader α) (put : α → σ → σ) : Field σ :=
  ⟨key, false, fun room tree record => (put · record) <$> reader room tree⟩

/-- Members of a record in the order of the text; `seen` holds the known keys so far. The
result is the record and the keys it has. -/
def fromMembers {σ : Type} (fields : List (Field σ)) (room : Nat) (seen : List String)
    (record : σ) : List Member → Except Problem (σ × List String)
  | [] => .ok (record, seen)
  | .mk key sound tree :: rest =>
    if !sound then .error .malformed
    else
      match fields.find? (fun field => field.key == key) with
      | none => do
        tree.skip
        fromMembers fields room seen record rest
      | some field =>
        if seen.contains key then .error (.unfit s!"duplicate field `{key}`")
        else do
          let record ← field.update room tree record
          fromMembers fields room (key :: seen) record rest

/-- Elements of a list read as the fields of a record. The result is the record and the
elements behind the last field. -/
def fromItems {σ : Type} (room : Nat) (ending : Ending) (short : Nat → Problem) (index : Nat)
    (record : σ) : List (Field σ) → List Tree → Except Problem (σ × List Tree)
  | [], trees => .ok (record, trees)
  | field :: fields, tree :: trees => do
    let record ← field.update room tree record
    fromItems room ending short (index + 1) record fields trees
  | field :: fields, [] => do
    ending.read
    if field.needed then .error (short index)
    fromItems room ending short (index + 1) record fields []

/-- The message about a list that has too few elements for a record. -/
def tooShort (name : String) (count index : Nat) : Problem :=
  .unfit (s!"invalid length {index}, expected struct {name} with {count} " ++
    (if count = 1 then "element" else "elements"))

/-- A record with named fields, starting from a blank one. -/
def record {σ : Type} (name : String) (fields : List (Field σ)) (blank : σ) : Reader σ
  | room, .object members ending => do
    let room ← enter room
    let (record, seen) ← fromMembers fields room [] blank members
    ending.read
    match fields.find? (fun field => field.needed && !seen.contains field.key) with
    | some field => .error (.unfit s!"missing field `{field.key}`")
    | none => return record
  | room, .array trees ending => do
    let room ← enter room
    let (record, more) ← fromItems room ending (tooShort name fields.length) 0 blank fields trees
    if !more.isEmpty then .error .malformed
    ending.demandClosed
    return record
  | _, tree => .error (tree.unexpected ("struct " ++ name))

mutual

/-- A value of any kind. The members of an object are sorted by key, and the last value of a
repeated key stays. -/
def value : Reader Value
  | _, .null => .ok .null
  | _, .flag value => .ok (.flag value)
  | _, .numeral numeral =>
    match numeral.value? with
    | some value => .ok (.number value)
    | none => .error .malformed
  | _, .text value sound => if sound then .ok (.text value) else .error .malformed
  | room, .array trees ending => do
    let room ← enter room
    let values ← valueItems room trees
    ending.read
    return .array values
  | room, .object members ending => do
    let room ← enter room
    let members ← valueMembers room [] members
    ending.read
    return .object members
  | _, .missing problem => .error problem
  | _, .badText stop => .error stop.reading
  | _, .badWord problem => .error problem

/-- Elements of any kind. -/
def valueItems (room : Nat) : List Tree → Except Problem (List Value)
  | [] => .ok []
  | tree :: rest => do
    let item ← value room tree
    let items ← valueItems room rest
    return item :: items

/-- Members of any kind. -/
def valueMembers (room : Nat) (done : List (String × Value)) :
    List Member → Except Problem (List (String × Value))
  | [] => .ok done
  | .mk key sound tree :: rest =>
    if !sound then .error .malformed
    else do
      let item ← value room tree
      valueMembers room (Value.put key item done) rest

end

/-- Reads a whole text: nothing but white space may follow the value. -/
def decode {α : Type} (reader : Reader α) (source : String) : Except Problem α := do
  let parsed := Parsed.ofText source
  let result ← reader nestingLimit parsed.tree
  if parsed.trailing then .error .malformed
  return result

end Reader

/-- Reads a value of any kind from a text. -/
def Value.parse (source : String) : Except Problem Value :=
  Reader.decode Reader.value source

end QuerySurface.Json
