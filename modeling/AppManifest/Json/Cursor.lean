import AppManifest.Json
import AppManifest.Json.Fault
import AppManifest.Binary64.Rounding
/-!
# Reading the tokens of a JSON text

A cursor is the rest of a text with the number of bytes before it. Every reading function takes a
cursor and gives what it read with the cursor behind it, or the fault that stopped it.

A fault is noticed either at a byte that was looked at and not accepted (`Cursor.faultAt`, which
counts that byte), or behind what was consumed (`Cursor.faultBehind`).
-/

namespace AppManifest.Json

/-- The rest of a text and the number of bytes before it. -/
structure Cursor where
  rest : List Char
  offset : Nat

/-- A reading function. -/
abbrev Reader (α : Type) := Cursor → Except Fault (α × Cursor)

namespace Cursor

/-- The start of a text. -/
def start (text : String) : Cursor := ⟨text.toList, 0⟩

/-- A bound on the number of steps that reading from here can take. -/
def fuel (c : Cursor) : Nat := 2 * c.rest.length + 2

/-- A fault at the next byte, or at the end of the text. -/
def faultAt {α : Type} (c : Cursor) (cause : Cause) : Except Fault α :=
  .error ⟨cause, some (if c.rest.isEmpty then c.offset else c.offset + 1)⟩

/-- A fault behind what was read. -/
def faultBehind {α : Type} (c : Cursor) (cause : Cause) : Except Fault α :=
  .error ⟨cause, some c.offset⟩

/-- Go past the next character. -/
def skip (c : Cursor) : Cursor :=
  match c.rest with
  | [] => c
  | ch :: rest => ⟨rest, c.offset + ch.utf8Size⟩

end Cursor

/-- The white space of JSON. -/
def isBlank (ch : Char) : Bool := ch = ' ' || ch = '\n' || ch = '\t' || ch = '\r'

/-- Go past white space. -/
def skipBlanks (c : Cursor) : Cursor :=
  let blanks := c.rest.takeWhile isBlank
  ⟨c.rest.dropWhile isBlank, c.offset + blanks.length⟩

/-- Read the given characters, the rest of a word such as `true`. -/
def word : List Char → Reader Unit
  | [], c => .ok ((), c)
  | expected :: more, c =>
    match c.rest with
    | [] => c.faultAt .endInValue
    | ch :: _ => if ch = expected then word more c.skip else
        .error ⟨.expectedIdent, some (c.offset + 1)⟩

/-! ### Strings -/

/-- The value of a digit in base sixteen. -/
def hexValue? (ch : Char) : Option Nat :=
  if '0' ≤ ch ∧ ch ≤ '9' then some (ch.toNat - '0'.toNat)
  else if 'a' ≤ ch ∧ ch ≤ 'f' then some (ch.toNat - 'a'.toNat + 10)
  else if 'A' ≤ ch ∧ ch ≤ 'F' then some (ch.toNat - 'A'.toNat + 10)
  else none

/-- The number of bytes of a list of characters. -/
def byteLength (chars : List Char) : Nat := chars.foldr (fun ch length ↦ ch.utf8Size + length) 0

/-- The value of four digits in base sixteen. -/
def hexValue4? : List Char → Option Nat
  | [a, b, c, d] => do
    let a ← hexValue? a
    let b ← hexValue? b
    let c ← hexValue? c
    let d ← hexValue? d
    some (((a * 16 + b) * 16 + c) * 16 + d)
  | _ => none

/-- Read the four digits of a `\u` escape. The next four bytes must exist, then they must be
digits. -/
def hexEscape : Reader Nat := fun c ↦
  let next := c.rest.take 4
  if byteLength next < 4 then .error ⟨.endInString, some (c.offset + byteLength next)⟩
  else
    match hexValue4? next with
    | some n => .ok (n, ⟨c.rest.drop 4, c.offset + 4⟩)
    | none => .error ⟨.invalidEscape, some (c.offset + 4)⟩

/-- The character that an escape letter other than `u` stands for. -/
def escapeLetter? (ch : Char) : Option Char :=
  if ch = '"' then some '"'
  else if ch = '\\' then some '\\'
  else if ch = '/' then some '/'
  else if ch = 'b' then some (Char.ofNat 8)
  else if ch = 'f' then some (Char.ofNat 12)
  else if ch = 'n' then some '\n'
  else if ch = 'r' then some '\r'
  else if ch = 't' then some '\t'
  else none

/-- Read one given character of the second half of a surrogate pair. -/
def pairMark (expected : Char) : Reader Unit := fun c ↦
  match c.rest with
  | [] => c.faultBehind .endInString
  | ch :: _ => if ch = expected then .ok ((), c.skip) else
      .error ⟨.endInHexEscape, some (c.offset + 1)⟩

/-- Read the character of a `\u` escape behind its `u`: one escape, or two that form a pair of
surrogates. -/
def unicodeEscape : Reader Char := fun c ↦ do
  let (high, c) ← hexEscape c
  if 0xDC00 ≤ high ∧ high ≤ 0xDFFF then c.faultBehind .loneSurrogate
  else if high < 0xD800 ∨ 0xDBFF < high then .ok (Char.ofNat high, c)
  else
    let (_, c) ← pairMark '\\' c
    let (_, c) ← pairMark 'u' c
    let (low, c) ← hexEscape c
    if low < 0xDC00 ∨ 0xDFFF < low then c.faultBehind .loneSurrogate
    else .ok (Char.ofNat (0x10000 + (high - 0xD800) * 0x400 + (low - 0xDC00)), c)

/-- Read the character of an escape behind its backslash. -/
def escape : Reader Char := fun c ↦
  match c.rest with
  | [] => c.faultBehind .endInString
  | ch :: _ =>
    if ch = 'u' then unicodeEscape c.skip
    else
      match escapeLetter? ch with
      | some value => .ok (value, c.skip)
      | none => .error ⟨.invalidEscape, some (c.offset + 1)⟩

/-- Read a string behind its opening quote; `done` holds the characters so far, last one first. -/
def stringFrom : Nat → List Char → Reader String
  | 0, _, c => c.faultBehind .endInString
  | fuel + 1, done, c =>
    match c.rest with
    | [] => c.faultBehind .endInString
    | ch :: _ =>
      if ch = '"' then .ok (String.ofList done.reverse, c.skip)
      else if ch = '\\' then do
        let (value, c) ← escape c.skip
        stringFrom fuel (value :: done) c
      else if ch.toNat < 32 then c.skip.faultBehind .controlCharacter
      else stringFrom fuel (ch :: done) c.skip

/-- Read a string behind its opening quote. -/
def stringBody : Reader String := fun c ↦ stringFrom c.fuel [] c

/-! ### Numbers -/

/-- A decimal digit. -/
def isDigit (ch : Char) : Bool := '0' ≤ ch && ch ≤ '9'

/-- The values of the digits at the front, and the cursor behind them. -/
def digitRun (c : Cursor) : List Nat × Cursor :=
  let run := c.rest.takeWhile isDigit
  (run.map fun ch ↦ ch.toNat - '0'.toNat, ⟨c.rest.dropWhile isDigit, c.offset + run.length⟩)

/-- Whether one of the given characters comes next. -/
def Cursor.startsWith (c : Cursor) (accepted : List Char) : Bool :=
  match c.rest with
  | [] => false
  | ch :: _ => accepted.contains ch

/-- Read the digits before the point: no leading zeros. The cause given is that of a text that
ends where a digit must stand. -/
def wholeDigits (atEnd : Cause) : Reader (List Nat) := fun c ↦
  let (digits, behind) := digitRun c
  match digits with
  | [] => c.faultAt (if c.rest.isEmpty then atEnd else .invalidNumber)
  | 0 :: _ :: _ => c.skip.faultAt .invalidNumber
  | _ => .ok (digits, behind)

/-- Read digits of which there must be at least one. -/
def someDigits (atEnd : Cause) : Reader (List Nat) := fun c ↦
  let (digits, behind) := digitRun c
  if digits.isEmpty then c.faultAt (if c.rest.isEmpty then atEnd else .invalidNumber)
  else .ok (digits, behind)

/-- Read the digits behind a point, if there is one. -/
def fractionDigits (atEnd : Cause) : Reader (Option (List Nat)) := fun c ↦
  if c.startsWith ['.'] then do
    let (digits, c) ← someDigits atEnd c.skip
    .ok (some digits, c)
  else .ok (none, c)

/-- Read an exponent, if there is one: whether it is negative, and its digits. -/
def exponentDigits (atEnd : Cause) : Reader (Option (Bool × List Nat)) := fun c ↦
  if c.startsWith ['e', 'E'] then do
    let c := c.skip
    let negative := c.startsWith ['-']
    let (digits, c) ← someDigits atEnd (if c.startsWith ['+', '-'] then c.skip else c)
    .ok (some (negative, digits), c)
  else .ok (none, c)

/-- The greatest exponent that is counted. -/
def exponentLimit : Nat := 2147483647

/-- How many of the digits it takes to exceed the greatest exponent, if they do. -/
def excessAt? (digits : List Nat) : Option Nat :=
  ((List.range digits.length).map (· + 1)).find?
    fun count ↦ exponentLimit < Decimal.natOf (digits.take count)

/-- Read the exponent of a number. A positive one beyond the limit is a fault as soon as its
digits exceed the limit, unless the number is zero anyway. -/
def exponent (isZero : Bool) : Reader (Option Int) := fun c ↦ do
  let (found, c) ← exponentDigits .endInValue c
  match found with
  | none => .ok (none, c)
  | some (negative, digits) =>
    match excessAt? digits with
    | some count =>
      if isZero then .ok (some 0, c)
      else if negative then .ok (some (-(exponentLimit : Int)), c)
      else .error ⟨.numberOutOfRange, some (c.offset - digits.length + count)⟩
    | none =>
      let e : Int := Decimal.natOf digits
      .ok (some (if negative then -e else e), c)

/-- The tree of a whole number: an integer from `-2 ^ 63` up to `2 ^ 64 - 1`, otherwise a binary
number if one is near. Negative zero is a binary number. -/
def wholeNumber? (negative : Bool) (digits : List Nat) : Option Json :=
  let n := Decimal.natOf digits
  if negative ∧ 0 < n ∧ n ≤ 0x8000000000000000 then some (Json.int (-(n : Int)))
  else if !negative ∧ n < UInt64.size then some (Json.int n)
  else (Binary64.ofDecimal? negative (Decimal.ofParts digits [] 0)).map Json.float

/-- Read a number behind its sign. -/
def number (negative : Bool) : Reader Json := fun c ↦ do
  let (whole, c) ← wholeDigits .endInValue c
  let (fraction, c) ← fractionDigits .endInValue c
  let (power, c) ← exponent ((whole ++ fraction.getD []).all (· == 0)) c
  let value? := match fraction, power with
    | none, none => wholeNumber? negative whole
    | _, _ => (Binary64.ofDecimal? negative
        (Decimal.ofParts whole (fraction.getD []) (power.getD 0))).map Json.float
  match value? with
  | some value => .ok (value, c)
  | none => c.faultBehind .numberOutOfRange

end AppManifest.Json
