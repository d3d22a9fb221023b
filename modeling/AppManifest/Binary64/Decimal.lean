/-!
# Decimal numbers in scientific form

A decimal is a list of digits and the place of its point. Numbers are read into this form and
printed from it; leading and trailing zeros carry no value and are dropped, so that equal
numbers have equal forms.
-/

namespace AppManifest

/-- The number `0.d₁d₂…dₙ × 10 ^ point`; no digits stand for zero. -/
structure Decimal where
  digits : List Nat
  point : Int
  deriving DecidableEq, Repr

namespace Decimal

/-- The digits of a natural number as a list, most significant first, at least one. -/
def digitsOf (n : Nat) : List Nat := (Nat.toDigits 10 n).map fun c ↦ c.toNat - '0'.toNat

/-- The natural number that a list of digits writes. -/
def natOf (digits : List Nat) : Nat := digits.foldl (fun acc d ↦ acc * 10 + d) 0

/-- The decimal with the given digits before and after a point, scaled by a power of ten. -/
def ofParts (whole fraction : List Nat) (exponent : Int) : Decimal :=
  let all := whole ++ fraction
  let significant := all.dropWhile (· == 0)
  let trimmed := (significant.reverse.dropWhile (· == 0)).reverse
  if trimmed.isEmpty then ⟨[], 0⟩
  else ⟨trimmed, (whole.length : Int) - ((all.length - significant.length : Nat) : Int) + exponent⟩

/-- A natural number of grid steps, each `10 ^ exponent`. -/
def ofScaled (n : Nat) (exponent : Int) : Decimal := ofParts (digitsOf n) [] exponent

end Decimal

end AppManifest
