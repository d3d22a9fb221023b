import AppManifest.Binary64
import AppManifest.Binary64.Decimal
/-!
# Rounding to the nearest binary number

`nearestMagnitude` rounds a fraction of naturals to the nearest magnitude, a tie going to the
even one. Numbers in decimal notation and integers are fractions, so both are read through it.
-/

namespace AppManifest.Binary64

/-- `⌊log₂ (n / d)⌋` for positive `n` and `d`. -/
def floorLog (n d : Nat) : Int :=
  let guess : Int := (n.log2 : Int) - (d.log2 : Int)
  let atLeast : Bool :=
    if guess < 0 then n * Nat.pow 2 guess.natAbs ≥ d else n ≥ d * Nat.pow 2 guess.natAbs
  if atLeast then guess else guess - 1

/-- The integer nearest to `n / d`; of two equally near ones the even one. -/
def roundHalfEven (n d : Nat) : Nat :=
  let q := n / d
  let r := n % d
  if 2 * r < d then q
  else if 2 * r > d then q + 1
  else if q % 2 = 0 then q else q + 1

/-- The magnitude nearest to `n / d`. It may lie beyond the largest finite one.

With `n / d` between `2 ^ (52 + q)` and `2 ^ (53 + q)`, numbers of this size are multiples of
`2 ^ q`. The multiple counts on from the magnitude `(q + 1074) · 2 ^ 52`, also when rounding
carries it to the next power of two. -/
def nearestMagnitude (n d : Nat) : Nat :=
  if n = 0 then 0
  else
    let q := max (floorLog n d - 52) (-1074)
    let steps := if q < 0 then roundHalfEven (n * Nat.pow 2 q.natAbs) d
      else roundHalfEven n (d * Nat.pow 2 q.natAbs)
    (q + 1074).toNat * binade + steps

/-- The finite number nearest to `±n / d`, unless that lies beyond the largest one. -/
def ofRatio? (negative : Bool) (n d : Nat) : Option Binary64 :=
  let magnitude := nearestMagnitude n d
  if h : magnitude < 0x7FF0000000000000 then some (.finite negative ⟨magnitude, h⟩) else none

/-- The number nearest to a decimal, unless it is too large. Decimals far outside the range
are settled by the place of their point alone. -/
def ofDecimal? (negative : Bool) (x : Decimal) : Option Binary64 :=
  if x.digits.isEmpty then ofRatio? negative 0 1
  else if x.point > 310 then none
  else if x.point < -330 then ofRatio? negative 0 1
  else
    let e := x.point - x.digits.length
    let n := Decimal.natOf x.digits
    if e < 0 then ofRatio? negative n (Nat.pow 10 e.natAbs)
    else ofRatio? negative (n * Nat.pow 10 e.natAbs) 1

/-- The number nearest to an integer; an infinity if it is too large. -/
def ofInt (i : Int) : Binary64 :=
  (ofRatio? (decide (i < 0)) i.natAbs 1).getD (.infinity (decide (i < 0)))

end AppManifest.Binary64
