/-!
# Tokens of JSON text

A text is cut into tokens from left to right. Cutting never fails: where the text stops
being well formed the list of tokens ends with a token that says so, and nothing behind it
is looked at. A broken text or word has the problem that a reader meets there, and for
texts also the one met when the text is only skipped, since unpaired surrogates matter to
a reader alone.
-/

namespace QuerySurface.Json

/-- Why a text cannot be read. -/
inductive Problem where
  /-- It is not well formed. -/
  | malformed
  /-- It ends too early. -/
  | unfinished
  /-- It is well formed and does not fit what is expected. -/
  | unfit (message : String)
  deriving Repr, DecidableEq

/-- A number as written. -/
structure Numeral where
  /-- Whether it starts with a minus sign. -/
  negative : Bool
  /-- Digits in front of the point. -/
  whole : List Char
  /-- Digits behind the point, if there is one. -/
  fraction : Option (List Char)
  /-- Whether the exponent is negative, and its digits, if there is one. -/
  exponent : Option (Bool × List Char)
  deriving Repr, DecidableEq

/-- The problem of a broken text, for a reader and for one who skips it. -/
structure Stop where
  /-- What a reader meets. -/
  reading : Problem
  /-- What one meets who skips the text. -/
  skipping : Problem
  deriving Repr, DecidableEq

/-- A token. -/
inductive Token where
  /-- Opens a list. -/
  | leftBracket
  /-- Closes a list. -/
  | rightBracket
  /-- Opens an object. -/
  | leftBrace
  /-- Closes an object. -/
  | rightBrace
  /-- Separates elements and members. -/
  | comma
  /-- Stands between key and value. -/
  | colon
  /-- The absent value. -/
  | null
  /-- A truth value. -/
  | flag (value : Bool)
  /-- A number. -/
  | numeral (value : Numeral)
  /-- A text. It is sound unless it holds a surrogate without its partner. -/
  | text (value : String) (sound : Bool)
  /-- A text that breaks off or holds what no text may hold. -/
  | badText (stop : Stop)
  /-- A word or number that breaks off or is misspelt, or a stray character. -/
  | badWord (problem : Problem)
  deriving Repr, DecidableEq

namespace Token

/-- A text as far as it is read. -/
structure Draft where
  /-- Characters so far, the last one first. -/
  chars : List Char
  /-- A leading surrogate whose partner has to follow. -/
  high : Option Nat
  /-- Whether all surrogates so far were paired. -/
  sound : Bool
  deriving Repr, DecidableEq

/-- Adds a character; a leading surrogate in front of it has no partner. -/
def Draft.push (draft : Draft) (c : Char) : Draft :=
  ⟨c :: draft.chars, none, draft.sound && draft.high.isNone⟩

/-- Adds the code unit of an escape and pairs surrogates. -/
def Draft.pushUnit (draft : Draft) (unit : Nat) : Draft :=
  match draft.high with
  | some high =>
    if 0xDC00 ≤ unit ∧ unit ≤ 0xDFFF then
      ⟨Char.ofNat (0x10000 + (high - 0xD800) * 1024 + (unit - 0xDC00)) :: draft.chars, none,
        draft.sound⟩
    else ⟨draft.chars, none, false⟩
  | none =>
    if 0xD800 ≤ unit ∧ unit ≤ 0xDBFF then ⟨draft.chars, some unit, draft.sound⟩
    else if 0xDC00 ≤ unit ∧ unit ≤ 0xDFFF then ⟨draft.chars, none, false⟩
    else ⟨Char.ofNat unit :: draft.chars, none, draft.sound⟩

/-- The problem of a text that breaks off here: a reader has met an unpaired surrogate first. -/
def Draft.stop (draft : Draft) (problem : Problem) : Token :=
  .badText ⟨if draft.sound then problem else .malformed, problem⟩

/-- Which part of a number is being read. -/
inductive Part where
  /-- The minus sign was read. -/
  | sign
  /-- A single zero was read. -/
  | zero
  /-- Digits in front of the point. -/
  | whole
  /-- The point was read. -/
  | point
  /-- Digits behind the point. -/
  | fraction
  /-- The exponent mark was read. -/
  | mark
  /-- The sign of the exponent was read. -/
  | markSign
  /-- Digits of the exponent. -/
  | exponent
  deriving Repr, DecidableEq

/-- Whether a number may end after this part. -/
def Part.complete : Part → Bool
  | .zero | .whole | .fraction | .exponent => true
  | .sign | .point | .mark | .markSign => false

/-- What is being read. -/
inductive Mode where
  /-- White space and the start of a token. -/
  | between
  /-- A word of which these letters are left. -/
  | word (left : List Char) (token : Token)
  /-- A number; its digits are collected in reverse. -/
  | numeral (part : Part) (sofar : Numeral)
  /-- A text. -/
  | text (draft : Draft)
  /-- An escape whose backslash was read. -/
  | escape (draft : Draft)
  /-- The hexadecimal digits of an escape. -/
  | hex (draft : Draft) (digits value : Nat)
  deriving Repr, DecidableEq

/-- Puts the digits of a number into their order. -/
def finished (sofar : Numeral) : Token :=
  .numeral
    { negative := sofar.negative
      whole := sofar.whole.reverse
      fraction := sofar.fraction.map List.reverse
      exponent := sofar.exponent.map fun (negative, digits) => (negative, digits.reverse) }

/-- Value of a hexadecimal digit. -/
def hexValue? (c : Char) : Option Nat :=
  if '0' ≤ c ∧ c ≤ '9' then some (c.toNat - 48)
  else if 'a' ≤ c ∧ c ≤ 'f' then some (c.toNat - 87)
  else if 'A' ≤ c ∧ c ≤ 'F' then some (c.toNat - 55)
  else none

/-- The character that an escape letter stands for. -/
def escapeValue? (c : Char) : Option Char :=
  if c = '"' ∨ c = '\\' ∨ c = '/' then some c
  else if c = 'b' then some (Char.ofNat 8)
  else if c = 'f' then some (Char.ofNat 12)
  else if c = 'n' then some '\n'
  else if c = 'r' then some '\r'
  else if c = 't' then some '\t'
  else none

/-- Whether at least `count` bytes of UTF-8 are left. -/
def hasBytes (count : Nat) (chars : List Char) : Bool :=
  count ≤ (chars.take count).foldl (fun size c => size + c.utf8Size) 0

/-- The start of a token: the tokens that are complete, and the mode in which to go on. -/
def start (c : Char) : List Token × Option Mode :=
  if c = ' ' ∨ c = '\t' ∨ c = '\n' ∨ c = '\r' then ([], some .between)
  else if c = '[' then ([.leftBracket], some .between)
  else if c = ']' then ([.rightBracket], some .between)
  else if c.toNat = 123 then ([.leftBrace], some .between)
  else if c.toNat = 125 then ([.rightBrace], some .between)
  else if c = ',' then ([.comma], some .between)
  else if c = ':' then ([.colon], some .between)
  else if c = '"' then ([], some (.text ⟨[], none, true⟩))
  else if c = 'n' then ([], some (.word ['u', 'l', 'l'] .null))
  else if c = 't' then ([], some (.word ['r', 'u', 'e'] (.flag true)))
  else if c = 'f' then ([], some (.word ['a', 'l', 's', 'e'] (.flag false)))
  else if c = '-' then ([], some (.numeral .sign ⟨true, [], none, none⟩))
  else if c = '0' then ([], some (.numeral .zero ⟨false, ['0'], none, none⟩))
  else if c.isDigit then ([], some (.numeral .whole ⟨false, [c], none, none⟩))
  else ([.badWord .malformed], none)

/-- What follows the parts of a number; nothing if the character is not part of it. -/
def extend (sofar : Numeral) (c : Char) : Part → Option (Part × Numeral)
  | .sign =>
    if c = '0' then some (.zero, { sofar with whole := ['0'] })
    else if c.isDigit then some (.whole, { sofar with whole := [c] })
    else none
  | .zero => afterWhole
  | .whole =>
    if c.isDigit then some (.whole, { sofar with whole := c :: sofar.whole }) else afterWhole
  | .point => if c.isDigit then some (.fraction, { sofar with fraction := some [c] }) else none
  | .fraction =>
    if c.isDigit then
      some (.fraction, { sofar with fraction := sofar.fraction.map (c :: ·) })
    else afterDigits
  | .mark =>
    if c = '+' then some (.markSign, { sofar with exponent := some (false, []) })
    else if c = '-' then some (.markSign, { sofar with exponent := some (true, []) })
    else if c.isDigit then some (.exponent, { sofar with exponent := some (false, [c]) })
    else none
  | .markSign => moreExponent
  | .exponent => moreExponent
where
  /-- A point or an exponent may follow. -/
  afterWhole : Option (Part × Numeral) :=
    if c = '.' then some (.point, sofar) else afterDigits
  /-- An exponent may follow. -/
  afterDigits : Option (Part × Numeral) :=
    if c = 'e' ∨ c = 'E' then some (.mark, sofar) else none
  /-- A digit of the exponent may follow. -/
  moreExponent : Option (Part × Numeral) :=
    if c.isDigit then
      some (.exponent, { sofar with exponent := sofar.exponent.map fun e => (e.1, c :: e.2) })
    else none

/-- One character: the tokens that are complete now, and the mode in which to go on, if the
text is well formed up to here. `rest` is what follows the character. -/
def step (mode : Mode) (c : Char) (rest : List Char) : List Token × Option Mode :=
  match mode with
  | .between => start c
  | .word [] token => (fun (tokens, next) => (token :: tokens, next)) (start c)
  | .word (d :: left) token =>
    if c = d then
      if left.isEmpty then ([token], some .between) else ([], some (.word left token))
    else ([.badWord .malformed], none)
  | .numeral part sofar =>
    match extend sofar c part with
    | some (next, longer) => ([], some (.numeral next longer))
    | none =>
      if part.complete && !(part == .zero && c.isDigit) then
        (fun (tokens, next) => (finished sofar :: tokens, next)) (start c)
      else ([.badWord .malformed], none)
  | .text draft =>
    if c = '"' then
      ([.text (String.ofList draft.chars.reverse) (draft.sound && draft.high.isNone)],
        some .between)
    else if c = '\\' then ([], some (.escape draft))
    else if c.toNat < 32 then ([draft.stop .malformed], none)
    else ([], some (.text (draft.push c)))
  | .escape draft =>
    if c = 'u' then ([], some (.hex draft 0 0))
    else
      match escapeValue? c with
      | some d => ([], some (.text (draft.push d)))
      | none => ([draft.stop .malformed], none)
  | .hex draft digits value =>
    match hexValue? c with
    | some digit =>
      if digits = 3 then ([], some (.text (draft.pushUnit (value * 16 + digit))))
      else ([], some (.hex draft (digits + 1) (value * 16 + digit)))
    | none =>
      ([draft.stop (if hasBytes (4 - digits) (c :: rest) then .malformed else .unfinished)], none)

/-- What is left to say when the text ends. -/
def finish : Mode → List Token
  | .between => []
  | .word _ _ => [.badWord .unfinished]
  | .numeral part sofar =>
    if part.complete then [finished sofar] else [.badWord .unfinished]
  | .text draft => [draft.stop .unfinished]
  | .escape draft => [draft.stop .unfinished]
  | .hex draft _ _ => [draft.stop .unfinished]

/-- Tokens of the rest of a text. -/
def scan (mode : Mode) : List Char → List Token
  | [] => finish mode
  | c :: rest =>
    match step mode c rest with
    | (tokens, some next) => tokens ++ scan next rest
    | (tokens, none) => tokens

/-- Tokens of a text. -/
def ofText (text : String) : List Token :=
  scan .between text.toList

end Token

end QuerySurface.Json
