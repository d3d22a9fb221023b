import AppManifest.Binary64.Rounding
/-!
# The shortest decimal that reads back

Of the decimals that round to a given number, the shortest one is its text; of the shortest
ones the nearest, and of two equally near ones the one whose last digit is even. The search
goes through the grids of one, two, … seventeen digits and tests on each grid the two
neighbours of the number; a decimal is taken only if it reads back.

Two notations write the decimal out: `scientificText` switches to an exponent for very large and
very small numbers, `positionalText` never does.
-/

namespace AppManifest.Binary64

/-- Whether `n / d < 10 ^ k`. -/
def belowPowerOfTen (n d : Nat) (k : Int) : Bool :=
  if k < 0 then n * Nat.pow 10 k.natAbs < d else n < d * Nat.pow 10 k.natAbs

/-- The least `k` from `start` on with `n / d < 10 ^ k`, tried a few steps at most. -/
def pointFrom (n d : Nat) (start : Int) : Nat → Int
  | 0 => start
  | steps + 1 => if belowPowerOfTen n d start then start else pointFrom n d (start + 1) steps

/-- The place of the decimal point of `n / d`: the `k` with `10 ^ (k - 1) ≤ n / d < 10 ^ k`. -/
def decimalPoint (n d : Nat) : Int :=
  pointFrom n d ((floorLog n d * 1233).fdiv 4096 - 1) 5

/-- The two multiples of `10 ^ e` around `n / d`, the nearer one first. -/
def gridNeighbours (n d : Nat) (e : Int) : List Decimal :=
  let (num, den) := if e < 0 then (n * Nat.pow 10 e.natAbs, d) else (n, d * Nat.pow 10 e.natAbs)
  let low := num / den
  let near := roundHalfEven num den
  let far := if near = low then low + 1 else low
  [Decimal.ofScaled near e, Decimal.ofScaled far e]

/-- The first decimal on the grids of the given digit counts that reads back as `x`. -/
def firstThatReadsBack (x : Binary64) (negative : Bool) (n d : Nat) (point : Int) :
    List Nat → Option Decimal
  | [] => none
  | count :: counts =>
    match (gridNeighbours n d (point - count)).find? (ofDecimal? negative · = some x) with
    | some decimal => some decimal
    | none => firstThatReadsBack x negative n d point counts

/-- A fraction whose denominator is a power of two, as an exact decimal. -/
def exactDecimal (magnitude : Nat) : Decimal :=
  let (m, q) := scaled magnitude
  if q < 0 then Decimal.ofScaled (m * Nat.pow 5 q.natAbs) q
  else Decimal.ofScaled (m * Nat.pow 2 q.natAbs) 0

/-- The shortest decimal that rounds to the given magnitude. -/
def shortest (magnitude : Fin 0x7FF0000000000000) : Decimal :=
  if magnitude.val = 0 then ⟨[], 0⟩
  else
    let (n, d) := ratio magnitude.val
    let point := decimalPoint n d
    let counts := (List.range 17).map (· + 1)
    (firstThatReadsBack (.finite false magnitude) false n d point counts).getD
      (exactDecimal magnitude.val)

/-- The characters of a list of digits. -/
def digitChars (digits : List Nat) : List Char := digits.map Nat.digitChar

/-- A decimal without an exponent: the digits before the point and those after it. -/
def positionalDigits (x : Decimal) : List Char × List Char :=
  let digits := digitChars x.digits
  if x.point ≤ 0 then (['0'], List.replicate x.point.natAbs '0' ++ digits)
  else
    let places := x.point.toNat
    if digits.length ≤ places then
      (digits ++ List.replicate (places - digits.length) '0', [])
    else (digits.take places, digits.drop places)

/-- Positional notation; a whole number gets `.0` if `pointAlways`. -/
def positional (pointAlways : Bool) (x : Decimal) : List Char :=
  let (whole, fraction) := if x.digits.isEmpty then (['0'], []) else positionalDigits x
  if fraction.isEmpty then (if pointAlways then whole ++ ['.', '0'] else whole)
  else whole ++ '.' :: fraction

/-- An exponent, always with a sign. -/
def exponentChars (e : Int) : List Char :=
  (if e < 0 then '-' else '+') :: Nat.toDigits 10 e.natAbs

/-- Scientific notation: one digit, the point and the others if there are any, an exponent. -/
def scientific (x : Decimal) : List Char :=
  let exponent := 'e' :: exponentChars (x.point - 1)
  match digitChars x.digits with
  | [] => ['0'] ++ exponent
  | [d] => d :: exponent
  | d :: rest => d :: '.' :: rest ++ exponent

/-- The sign in front of a number. -/
def signChars (negative : Bool) : List Char := if negative then ['-'] else []

/-- Text with an exponent for numbers below `10 ^ -5` or from `10 ^ 16` on, and with `.0` for
whole numbers otherwise. -/
def scientificText : Binary64 → String
  | .nan => "NaN"
  | .infinity negative => if negative then "-inf" else "inf"
  | .finite negative magnitude =>
    let x := shortest magnitude
    let usePositional := x.digits.isEmpty || (-4 ≤ x.point && x.point ≤ 16)
    String.ofList (signChars negative ++ if usePositional then positional true x else scientific x)

/-- Text that never has an exponent, and no point for whole numbers. -/
def positionalText : Binary64 → String
  | .nan => "NaN"
  | .infinity negative => if negative then "-inf" else "inf"
  | .finite negative magnitude =>
    String.ofList (signChars negative ++ positional false (shortest magnitude))

end AppManifest.Binary64
