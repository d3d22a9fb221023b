import AppManifest.Text.Position
/-!
# Formatted printing

A format is printed with arguments: directives take the arguments one by one, and the format is
used again while arguments are left. Backslashes may give a byte by its octal digits, so the
result is bytes and need not be text.
-/

namespace AppManifest.Host.Shell.Printf

/-- The bytes of characters. -/
def charBytes (chars : List Char) : List UInt8 := Text.bytes (String.ofList chars)

/-- Octal digits at the start of a text, at most a number of them. -/
def octalDigits (most : Nat) (cs : List Char) : List Char :=
  (cs.take most).takeWhile fun c ↦ '0' ≤ c && c ≤ '7'

/-- The byte that octal digits give. -/
def octalByte (digits : List Char) : UInt8 :=
  UInt8.ofNat (digits.foldl (fun n c ↦ n * 8 + (c.toNat - '0'.toNat)) 0)

/-- The byte of a letter behind a backslash. -/
def escapeByte? (c : Char) : Option UInt8 :=
  (("abfnrtv\\".toList.zip [7, 8, 12, 10, 13, 9, 11, 92]).lookup c)

/-- What follows a backslash: the bytes, and the rest of the text. -/
def escape (cs : List Char) : List UInt8 × List Char :=
  let digits := octalDigits 3 cs
  if digits.isEmpty then
    match cs with
    | [] => ([92], [])
    | c :: rest =>
      match escapeByte? c with
      | some b => ([b], rest)
      | none => (92 :: charBytes [c], rest)
  else ([octalByte digits], cs.drop digits.length)

/-- Text in which backslashes have a meaning. -/
def escaped : Nat → List Char → List UInt8
  | 0, _ => []
  | _ + 1, [] => []
  | fuel + 1, c :: rest =>
    if c = '\\' then
      let rest := match rest with
        | '0' :: more => if (octalDigits 3 more).isEmpty then rest else more
        | _ => rest
      let (bytes, rest) := escape rest
      bytes ++ escaped fuel rest
    else charBytes [c] ++ escaped fuel rest

/-- A directive: its flags, its width, its precision, and its letter. -/
structure Directive where
  left : Bool
  zeros : Bool
  width : Nat
  precision : Option Nat
  letter : Char

/-- A number at the start of a text. -/
def numberAt (cs : List Char) : Nat × List Char :=
  ((String.ofList (cs.takeWhile (·.isDigit))).toNat?.getD 0, cs.dropWhile (·.isDigit))

/-- Read a directive behind its percent sign. -/
def directive? (cs : List Char) : Option (Directive × List Char) :=
  let flags := cs.takeWhile fun c ↦ c = '-' || c = '0'
  let (width, cs) := numberAt (cs.drop flags.length)
  let (precision, cs) : Option Nat × List Char :=
    match cs with
    | '.' :: rest => let (n, rest) := numberAt rest; (some n, rest)
    | _ => (none, cs)
  match cs with
  | letter :: rest =>
    some (⟨flags.contains '-', flags.contains '0', width, precision, letter⟩, rest)
  | [] => none

/-- Fill bytes up to the width of a directive. -/
def Directive.pad (d : Directive) (bytes : List UInt8) : List UInt8 :=
  let missing := d.width - bytes.length
  if d.left then bytes ++ List.replicate missing 32
  else if d.zeros && "dioux".toList.contains d.letter then List.replicate missing 48 ++ bytes
  else List.replicate missing 32 ++ bytes

/-- The bytes of an argument under a directive. -/
def Directive.bytes (d : Directive) (argument : String) : List UInt8 :=
  let number := (argument.toInt?.getD 0)
  match d.letter with
  | 's' =>
    let all := Text.bytes argument
    d.pad (match d.precision with | some n => all.take n | none => all)
  | 'b' => d.pad (escaped (argument.length + 1) argument.toList)
  | 'c' => d.pad ((Text.bytes argument).take 1)
  | 'd' | 'i' | 'u' => d.pad (Text.bytes (toString number))
  | 'o' => d.pad (charBytes (Nat.toDigits 8 number.toNat))
  | 'x' => d.pad (charBytes (Nat.toDigits 16 number.toNat))
  | 'X' => d.pad (charBytes ((Nat.toDigits 16 number.toNat).map Char.toUpper))
  | _ => []

/-- Print a format once: the bytes, the arguments that are left, and whether a directive took
any. -/
def once : Nat → List Char → List String → List UInt8 × List String × Bool
  | 0, _, args => ([], args, false)
  | _ + 1, [], args => ([], args, false)
  | fuel + 1, c :: rest, args =>
    if c = '\\' then
      let (bytes, rest) := escape rest
      let (more, args, took) := once fuel rest args
      (bytes ++ more, args, took)
    else if c = '%' then
      match directive? rest with
      | none => ([37], args, false)
      | some (d, rest) =>
        if d.letter = '%' then
          let (more, args, took) := once fuel rest args
          (37 :: more, args, took)
        else
          let (more, left, _) := once fuel rest args.tail
          (d.bytes (args.headD "") ++ more, left, true)
    else
      let (more, args, took) := once fuel rest args
      (charBytes [c] ++ more, args, took)

/-- Print a format, and again while a directive takes arguments and some are left. -/
def formatted : Nat → List Char → List String → List UInt8
  | 0, _, _ => []
  | fuel + 1, format, args =>
    let (bytes, left, took) := once (format.length + 1) format args
    if took && !left.isEmpty then bytes ++ formatted fuel format left else bytes

end AppManifest.Host.Shell.Printf
