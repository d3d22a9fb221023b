/-!
# The characters of TOML

White space, comments, keys and strings. Every reader takes the rest of a text and gives what it
read with what follows, or nothing where the text does not fit.
-/

namespace AppManifest.Toml

/-- A reader of TOML. -/
abbrev Scan (α : Type) := List Char → Option (α × List Char)

/-- A space or a tab. -/
def isBlank (c : Char) : Bool := c = ' ' || c = '\t'

/-- A character that may stand in comments and, quotes apart, in literal strings. -/
def isPlain (c : Char) : Bool := c = '\t' || (32 ≤ c.toNat && c.toNat ≠ 127)

/-- Go past spaces and tabs. -/
def skipBlanks (cs : List Char) : List Char := cs.dropWhile isBlank

/-- Go past a line break. -/
def lineBreak? : List Char → Option (List Char)
  | '\n' :: rest => some rest
  | '\r' :: '\n' :: rest => some rest
  | _ => none

/-- Go past a comment, if one starts here. -/
def skipComment : List Char → List Char
  | '#' :: rest => rest.dropWhile isPlain
  | cs => cs

/-- Go to the end of a line: blanks, perhaps a comment, and a line break or the end of the text. -/
def endOfLine? (cs : List Char) : Option (List Char) :=
  match skipComment (skipBlanks cs) with
  | [] => some []
  | rest => lineBreak? rest

/-- Go past blanks, comments and line breaks. -/
def skipSpace : Nat → List Char → List Char
  | 0, cs => cs
  | fuel + 1, cs =>
    let rest := skipComment (skipBlanks cs)
    match lineBreak? rest with
    | some rest => skipSpace fuel rest
    | none => rest

/-! ### Strings -/

/-- The value of a digit in base sixteen. -/
def hexValue? (c : Char) : Option Nat :=
  if '0' ≤ c ∧ c ≤ '9' then some (c.toNat - '0'.toNat)
  else if 'a' ≤ c ∧ c ≤ 'f' then some (c.toNat - 'a'.toNat + 10)
  else if 'A' ≤ c ∧ c ≤ 'F' then some (c.toNat - 'A'.toNat + 10)
  else none

/-- The character with a code written in base sixteen, if it is one. -/
def charOfHex? (digits : List Char) : Option Char := do
  let values ← digits.mapM hexValue?
  let code := values.foldl (fun n d ↦ n * 16 + d) 0
  if code < 0xD800 ∨ (0xDFFF < code ∧ code < 0x110000) then some (Char.ofNat code) else none

/-- Read an escape of a basic string behind its backslash. -/
def escape : Scan Char
  | 'b' :: rest => some (Char.ofNat 8, rest)
  | 't' :: rest => some ('\t', rest)
  | 'n' :: rest => some ('\n', rest)
  | 'f' :: rest => some (Char.ofNat 12, rest)
  | 'r' :: rest => some ('\r', rest)
  | '"' :: rest => some ('"', rest)
  | '\\' :: rest => some ('\\', rest)
  | 'u' :: a :: b :: c :: d :: rest => (charOfHex? [a, b, c, d]).map (·, rest)
  | 'U' :: a :: b :: c :: d :: e :: f :: g :: h :: rest =>
    (charOfHex? [a, b, c, d, e, f, g, h]).map (·, rest)
  | _ => none

/-- Read a basic string behind its opening quote; `done` holds what was read, last one first. -/
def basicString : Nat → List Char → Scan String
  | 0, _, _ => none
  | _ + 1, _, [] => none
  | fuel + 1, done, c :: rest =>
    if c = '"' then some (String.ofList done.reverse, rest)
    else if c = '\\' then do
      let (value, rest) ← escape rest
      basicString fuel (value :: done) rest
    else if isPlain c then basicString fuel (c :: done) rest
    else none

/-- Read a literal string behind its opening quote. -/
def literalString (cs : List Char) : Option (String × List Char) :=
  let isInside := fun c ↦ isPlain c && c.toNat ≠ 39
  match cs.dropWhile isInside with
  | c :: rest => if c.toNat = 39 then some (String.ofList (cs.takeWhile isInside), rest) else none
  | [] => none

/-- The number of quotes at the front, at most five. -/
def quoteRun (quote : Char) (cs : List Char) : Nat := ((cs.takeWhile (· = quote)).take 5).length

/-- Whether a backslash stands at the end of its line; then what follows the white space and the
line breaks behind it. -/
def foldedLine? (fuel : Nat) (cs : List Char) : Option (List Char) :=
  (lineBreak? (skipBlanks cs)).map fun rest ↦ go fuel rest
where
  /-- Go past blanks and line breaks. -/
  go : Nat → List Char → List Char
    | 0, cs => cs
    | fuel + 1, cs =>
      match lineBreak? (skipBlanks cs) with
      | some rest => go fuel rest
      | none => skipBlanks cs

/-- Read a string over several lines behind its opening quotes. Up to two quotes may stand inside
and in front of the closing ones; escapes count only in basic strings. -/
def longString (quote : Char) : Nat → List Char → Scan String
  | 0, _, _ => none
  | _ + 1, _, [] => none
  | fuel + 1, done, c :: rest =>
    if c = quote then
      let run := quoteRun quote (c :: rest)
      if run < 3 then longString quote fuel (c :: done) rest
      else
        some (String.ofList (List.replicate (run - 3) quote ++ done).reverse, rest.drop (run - 1))
    else if c = '\\' && quote = '"' then
      match foldedLine? fuel rest with
      | some rest => longString quote fuel done rest
      | none => do
        let (value, rest) ← escape rest
        longString quote fuel (value :: done) rest
    else if c = '\r' then
      match rest with
      | '\n' :: rest => longString quote fuel ('\n' :: '\r' :: done) rest
      | _ => none
    else if c = '\n' || isPlain c then longString quote fuel (c :: done) rest
    else none

/-- Read a string of any of the four forms, if one starts here. -/
def string? (cs : List Char) : Option (String × List Char) :=
  let fuel := cs.length
  match cs with
  | a :: b :: c :: rest =>
    if (a = '"' || a.toNat = 39) && b = a && c = a then
      longString a fuel [] ((lineBreak? rest).getD rest)
    else oneLine cs
  | _ => oneLine cs
where
  /-- Read a string on one line. -/
  oneLine : List Char → Option (String × List Char)
    | c :: rest =>
      if c = '"' then basicString (rest.length + 1) [] rest
      else if c.toNat = 39 then literalString rest
      else none
    | [] => none

/-! ### Keys -/

/-- A character of a key without quotes. -/
def isBare (c : Char) : Bool :=
  ('a' ≤ c && c ≤ 'z') || ('A' ≤ c && c ≤ 'Z') || ('0' ≤ c && c ≤ '9') || c = '-' || c = '_'

/-- Read one part of a key. -/
def keyPart : Scan String
  | [] => none
  | c :: rest =>
    if c = '"' then basicString (rest.length + 1) [] rest
    else if c.toNat = 39 then literalString rest
    else
      let name := (c :: rest).takeWhile isBare
      if name.isEmpty then none else some (String.ofList name, (c :: rest).dropWhile isBare)

/-- Read a key: parts with dots between them, and blanks around the dots. -/
def key : Nat → Scan (List String)
  | 0, _ => none
  | fuel + 1, cs => do
    let (part, rest) ← keyPart (skipBlanks cs)
    match skipBlanks rest with
    | '.' :: rest => do
      let (parts, rest) ← key fuel rest
      some (part :: parts, rest)
    | rest => some ([part], rest)

end AppManifest.Toml
