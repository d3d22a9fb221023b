import AppManifest.Json
import AppManifest.Binary64.Rounding
import AppManifest.Toml.Lexical
/-!
# Numbers, truth values and dates in TOML

A scalar without quotes is read as a JSON tree. Integers reach from `-2 ^ 63` to `2 ^ 64 - 1`. A
date or a time becomes an object with its text under a key of its own.
-/

namespace AppManifest.Toml

/-- A decimal digit. -/
def isDigit (c : Char) : Bool := '0' ≤ c && c ≤ '9'

/-- The digits of a number with underscores between digits taken out. -/
def digits? (isDigit : Char → Bool) : List Char → Option (List Char)
  | [] => none
  | [c] => if isDigit c then some [c] else none
  | c :: '_' :: rest => if isDigit c then (digits? isDigit rest).map (c :: ·) else none
  | c :: rest => if isDigit c then (digits? isDigit rest).map (c :: ·) else none

/-- The values of decimal digits. -/
def digitValues (cs : List Char) : List Nat := cs.map fun c ↦ c.toNat - '0'.toNat

/-- The digits of a whole number in decimal notation: no leading zeros. -/
def wholeDigits? (cs : List Char) : Option (List Nat) := do
  match ← digits? isDigit cs with
  | '0' :: _ :: _ => none
  | ds => some (digitValues ds)

/-- A sign and what follows it. -/
def signed : List Char → Bool × List Char
  | '-' :: rest => (true, rest)
  | '+' :: rest => (false, rest)
  | cs => (false, cs)

/-- An integer that is in range. -/
def intInRange? (n : Int) : Option Json :=
  if Int64.minValue.toInt ≤ n ∧ n < UInt64.size then some (.int n) else none

/-- A decimal integer. -/
def decimalInt? (cs : List Char) : Option Json := do
  let (negative, cs) := signed cs
  let n : Nat := Decimal.natOf (← wholeDigits? cs)
  intInRange? (if negative then -(n : Int) else n)

/-- An integer in another base, behind its two-character mark. -/
def basedInt? (base : Nat) (cs : List Char) : Option Json := do
  let isBaseDigit := fun c ↦ match hexValue? c with
    | some value => decide (value < base)
    | none => false
  let ds ← digits? isBaseDigit cs
  let values ← ds.mapM hexValue?
  intInRange? (values.foldl (fun n d ↦ n * base + d) 0 : Nat)

/-- An exponent behind its letter. -/
def exponent? (cs : List Char) : Option Int := do
  let (negative, cs) := signed cs
  let n : Nat := Decimal.natOf (digitValues (← digits? isDigit cs))
  some (if negative then -(n : Int) else n)

/-- Whether a character marks an exponent. -/
def isExponentMark (c : Char) : Bool := c = 'e' || c = 'E'

/-- A number with a fraction, an exponent or both. -/
def float? (cs : List Char) : Option Json := do
  let (negative, cs) := signed cs
  let mantissa := cs.takeWhile (!isExponentMark ·)
  let whole ← wholeDigits? (mantissa.takeWhile (· ≠ '.'))
  let fraction ← match mantissa.dropWhile (· ≠ '.') with
    | [] => some []
    | _ :: ds => (digits? isDigit ds).map digitValues
  let power ← match cs.dropWhile (!isExponentMark ·) with
    | [] => some 0
    | _ :: ds => exponent? ds
  (Binary64.ofDecimal? negative (Decimal.ofParts whole fraction power)).map .float

/-- An infinity or NaN, with or without a sign. -/
def special? (cs : List Char) : Option Json :=
  let (negative, cs) := signed cs
  if cs = ['i', 'n', 'f'] then some (.float (.infinity negative))
  else if cs = ['n', 'a', 'n'] then some (.float .nan)
  else none

/-! ### Dates and times -/

/-- The number written by exactly `count` digits. -/
def fixedDigits? (count : Nat) (cs : List Char) : Option (Nat × List Char) :=
  let ds := cs.take count
  if ds.length = count ∧ ds.all isDigit then
    some (Decimal.natOf (digitValues ds), cs.drop count)
  else none

/-- Go past a given character. -/
def mark? (expected : Char) : List Char → Option (List Char)
  | c :: rest => if c = expected then some rest else none
  | [] => none

/-- The number of days of a month. -/
def daysOf (year month : Nat) : Nat :=
  if month = 2 then
    if year % 4 = 0 ∧ (year % 100 ≠ 0 ∨ year % 400 = 0) then 29 else 28
  else if month ∈ [4, 6, 9, 11] then 30
  else 31

/-- A number with zeros in front, up to a width. -/
def padded (width n : Nat) : List Char :=
  let ds := Nat.toDigits 10 n
  List.replicate (width - ds.length) '0' ++ ds

/-- Read a date and write it out again. -/
def date? (cs : List Char) : Option (List Char × List Char) := do
  let (year, cs) ← fixedDigits? 4 cs
  let cs ← mark? '-' cs
  let (month, cs) ← fixedDigits? 2 cs
  let cs ← mark? '-' cs
  let (day, cs) ← fixedDigits? 2 cs
  if 1 ≤ month ∧ month ≤ 12 ∧ 1 ≤ day ∧ day ≤ daysOf year month then
    some (padded 4 year ++ '-' :: padded 2 month ++ '-' :: padded 2 day, cs)
  else none

/-- A fraction of a second: at most nine digits count, and trailing zeros do not. -/
def fractionText (ds : List Char) : List Char :=
  let kept := ((ds.take 9).reverse.dropWhile (· = '0')).reverse
  '.' :: if kept.isEmpty then ['0'] else kept

/-- Read a time and write it out again. -/
def time? (cs : List Char) : Option (List Char × List Char) := do
  let (hour, cs) ← fixedDigits? 2 cs
  let cs ← mark? ':' cs
  let (minute, cs) ← fixedDigits? 2 cs
  let cs ← mark? ':' cs
  let (second, cs) ← fixedDigits? 2 cs
  if hour ≤ 23 ∧ minute ≤ 59 ∧ second ≤ 60 then
    let text := padded 2 hour ++ ':' :: padded 2 minute ++ ':' :: padded 2 second
    match cs with
    | '.' :: rest =>
      let ds := rest.takeWhile isDigit
      if ds.isEmpty then none else some (text ++ fractionText ds, rest.dropWhile isDigit)
    | _ => some (text, cs)
  else none

/-- Read the offset of a time from universal time and write it out again. -/
def zone? : List Char → Option (List Char × List Char)
  | [] => some ([], [])
  | c :: rest =>
    if c = 'Z' || c = 'z' then some (['Z'], rest)
    else if c = '+' || c = '-' then do
      let (hours, cs) ← fixedDigits? 2 rest
      let cs ← mark? ':' cs
      let (minutes, cs) ← fixedDigits? 2 cs
      if hours ≤ 23 ∧ minutes ≤ 59 then
        let sign := if c = '-' ∧ 0 < hours + minutes then '-' else '+'
        some (sign :: padded 2 hours ++ ':' :: padded 2 minutes, cs)
      else none
    else none

/-- The text of a date, a time, or both. A date and its time may be joined by `T` or a space; a
`T` is written. -/
def datetimeChars? (cs : List Char) : Option (List Char) :=
  match date? cs with
  | some (date, []) => some date
  | some (date, joint :: rest) =>
    if joint = 'T' || joint = 't' || joint = ' ' then do
      let (time, rest) ← time? rest
      let (zone, rest) ← zone? rest
      if rest.isEmpty then some (date ++ 'T' :: time ++ zone) else none
    else none
  | none =>
    match time? cs with
    | some (time, []) => some time
    | _ => none

/-- The key under which the text of a date or a time stands. -/
def datetimeKey : String := "$__toml_private_datetime"

/-- A date or a time. -/
def datetime? (cs : List Char) : Option Json :=
  (datetimeChars? cs).map fun text ↦ .object [(datetimeKey, .string (String.ofList text))]

/-- Whether a scalar has the beginning of a date or a time. -/
def looksLikeDatetime (cs : List Char) : Bool :=
  match cs with
  | a :: b :: ':' :: _ => isDigit a && isDigit b
  | a :: b :: c :: d :: '-' :: _ => [a, b, c, d].all isDigit
  | _ => false

/-- The value of a scalar without quotes. -/
def scalar? (cs : List Char) : Option Json :=
  if cs = ['t', 'r', 'u', 'e'] then some (.bool true)
  else if cs = ['f', 'a', 'l', 's', 'e'] then some (.bool false)
  else if looksLikeDatetime cs then datetime? cs
  else
    match cs with
    | '0' :: 'x' :: rest => basedInt? 16 rest
    | '0' :: 'o' :: rest => basedInt? 8 rest
    | '0' :: 'b' :: rest => basedInt? 2 rest
    | _ =>
      match special? cs with
      | some value => some value
      | none =>
        if cs.any fun c ↦ c = '.' || isExponentMark c then float? cs else decimalInt? cs

/-- A character of a scalar without quotes. -/
def isScalarChar (c : Char) : Bool := isBare c || c = '+' || c = '.' || c = ':'

/-- Split off a scalar without quotes. A space belongs to it only between a date and a time. -/
def scalarChars (cs : List Char) : List Char × List Char :=
  let word := cs.takeWhile isScalarChar
  let rest := cs.dropWhile isScalarChar
  match rest with
  | ' ' :: c :: more =>
    if word.length = 10 && looksLikeDatetime word && isDigit c then
      (word ++ ' ' :: (c :: more).takeWhile isScalarChar, (c :: more).dropWhile isScalarChar)
    else (word, rest)
  | _ => (word, rest)

end AppManifest.Toml
