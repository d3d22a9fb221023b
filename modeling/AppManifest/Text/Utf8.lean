/-!
# UTF-8 with faults

Bytes are decoded character by character. A part that belongs to no character becomes one
replacement character, and such a part is as long as possible: it ends where no character that
began in it could go on.
-/

namespace AppManifest.Text

/-- What stands for bytes that are no text. -/
def replacement : Char := Char.ofNat 0xFFFD

/-- The number of further bytes of a character that begins with a byte, and the range of the
first of them, if a character can begin so. -/
def leadByte? (b : Nat) : Option (Nat × Nat × Nat) :=
  if b < 0x80 then some (0, 0, 0)
  else if 0xC2 ≤ b ∧ b ≤ 0xDF then some (1, 0x80, 0xBF)
  else if b = 0xE0 then some (2, 0xA0, 0xBF)
  else if b = 0xED then some (2, 0x80, 0x9F)
  else if 0xE1 ≤ b ∧ b ≤ 0xEF then some (2, 0x80, 0xBF)
  else if b = 0xF0 then some (3, 0x90, 0xBF)
  else if 0xF1 ≤ b ∧ b ≤ 0xF3 then some (3, 0x80, 0xBF)
  else if b = 0xF4 then some (3, 0x80, 0x8F)
  else none

/-- The part of a character's code that its first byte holds. -/
def leadBits (b count : Nat) : Nat :=
  if count = 0 then b
  else if count = 1 then b % 0x20
  else if count = 2 then b % 0x10
  else b % 0x08

/-- A character that has begun: its code so far, and what its next byte has to be. -/
structure Begun where
  code : Nat
  missing : Nat
  low : Nat
  high : Nat

/-- Decode bytes, given the character that has begun if one has. -/
def decodeFrom : Option Begun → List UInt8 → List Char
  | none, [] => []
  | some _, [] => [replacement]
  | begun, b :: rest =>
    let start : List Char × Option Begun :=
      match leadByte? b.toNat with
      | none => ([replacement], none)
      | some (0, _, _) => ([Char.ofNat b.toNat], none)
      | some (count, low, high) => ([], some ⟨leadBits b.toNat count, count, low, high⟩)
    let (chars, next) : List Char × Option Begun :=
      match begun with
      | none => start
      | some ⟨code, missing, low, high⟩ =>
        if low ≤ b.toNat ∧ b.toNat ≤ high then
          let code := code * 0x40 + b.toNat % 0x40
          if missing = 1 then ([Char.ofNat code], none)
          else ([], some ⟨code, missing - 1, 0x80, 0xBF⟩)
        else (replacement :: start.1, start.2)
    chars ++ decodeFrom next rest

/-- Decode bytes as text. -/
def decodeLossy (source : List UInt8) : String := String.ofList (decodeFrom none source)

/-- Decode bytes that are text throughout. -/
def decode? (source : List UInt8) : Option String := String.fromUTF8? ⟨source.toArray⟩

end AppManifest.Text
