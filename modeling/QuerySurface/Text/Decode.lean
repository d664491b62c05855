/-!
# Texts of bytes

Bytes are decoded as UTF-8 without ever failing: every longest run of bytes that starts a
character and does not go on as it has to becomes one replacement character.
-/

namespace QuerySurface.Text

/-- What stands for bytes that are no character. -/
def replacement : Char := Char.ofNat 0xFFFD

/-- A character of which some bytes are missing. -/
structure Partial where
  /-- Number of missing bytes. -/
  left : Nat
  /-- The code of the bytes so far. -/
  code : Nat
  /-- The least byte that may come next. -/
  low : Nat
  /-- The greatest byte that may come next. -/
  high : Nat
  deriving DecidableEq, Repr

/-- The first byte of a character: characters that are complete, and one that is not. -/
def firstByte (byte : Nat) : List Char × Option Partial :=
  if byte < 0x80 then ([Char.ofNat byte], none)
  else if 0xC2 ≤ byte ∧ byte ≤ 0xDF then ([], some ⟨1, byte - 0xC0, 0x80, 0xBF⟩)
  else if 0xE0 ≤ byte ∧ byte ≤ 0xEF then
    ([], some ⟨2, byte - 0xE0, if byte = 0xE0 then 0xA0 else 0x80,
      if byte = 0xED then 0x9F else 0xBF⟩)
  else if 0xF0 ≤ byte ∧ byte ≤ 0xF4 then
    ([], some ⟨3, byte - 0xF0, if byte = 0xF0 then 0x90 else 0x80,
      if byte = 0xF4 then 0x8F else 0xBF⟩)
  else ([replacement], none)

/-- The next byte, behind a character that may not be complete. -/
def nextByte (pending : Option Partial) (byte : Nat) : List Char × Option Partial :=
  match pending with
  | none => firstByte byte
  | some it =>
    if it.low ≤ byte ∧ byte ≤ it.high then
      let code := it.code * 64 + (byte - 0x80)
      if it.left = 1 then ([Char.ofNat code], none)
      else ([], some ⟨it.left - 1, code, 0x80, 0xBF⟩)
    else
      let (done, next) := firstByte byte
      (replacement :: done, next)

/-- The characters of bytes, behind a character that may not be complete. -/
def decodeFrom (pending : Option Partial) : List UInt8 → List Char
  | [] => if pending.isSome then [replacement] else []
  | byte :: rest =>
    let (done, next) := nextByte pending byte.toNat
    done ++ decodeFrom next rest

/-- The text of bytes. -/
def decodeLossy (bytes : List UInt8) : String :=
  String.ofList (decodeFrom none bytes)

end QuerySurface.Text
