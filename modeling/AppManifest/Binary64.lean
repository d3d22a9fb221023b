/-!
# Binary floating point numbers

The 64-bit binary format as data: a sign and a *magnitude*, the low 63 bits of the encoding.
The magnitudes `0, 1, …` of the finite numbers follow the order of the numbers themselves, so
comparison is comparison of magnitudes, and the neighbours of a number are one magnitude away.
-/

namespace AppManifest

/-- A number in the 64-bit binary floating point format. All NaN are one. -/
inductive Binary64 where
  /-- A finite number; the sign of zero is kept. -/
  | finite (negative : Bool) (magnitude : Fin 0x7FF0000000000000)
  /-- An infinity. -/
  | infinity (negative : Bool)
  /-- Not a number. -/
  | nan
  deriving DecidableEq

namespace Binary64

/-- Positive zero. -/
def zero : Binary64 := .finite false ⟨0, by decide⟩

/-- Neither infinite nor NaN. -/
def isFinite : Binary64 → Bool
  | .finite .. => true
  | _ => false

/-- Turn the sign around. -/
def neg : Binary64 → Binary64
  | .finite s m => .finite (!s) m
  | .infinity s => .infinity (!s)
  | .nan => .nan

/-- At least zero: both zeros are, and NaN is not. -/
def isNonnegative : Binary64 → Bool
  | .finite s m => !s || m.val == 0
  | .infinity s => !s
  | .nan => false

/-- Numerical equality: the two zeros are equal, and NaN equals nothing. -/
def same : Binary64 → Binary64 → Bool
  | .finite s m, .finite t n => m == n && (s == t || m.val == 0)
  | .infinity s, .infinity t => s == t
  | _, _ => false

/-- The number of magnitudes from a power of two up to the next one. -/
def binade : Nat := 0x10000000000000

/-- The integer `m` and the binary exponent `q` with which a finite magnitude stands for
`m · 2 ^ q`. -/
def scaled (magnitude : Nat) : Nat × Int :=
  let field : Nat := magnitude / binade
  let fraction : Nat := magnitude % binade
  if field = 0 then (fraction, -1074) else (binade + fraction, (field : Int) - 1075)

/-- A magnitude as a fraction of naturals. -/
def ratio (magnitude : Nat) : Nat × Nat :=
  let (m, q) := scaled magnitude
  if q < 0 then (m, Nat.pow 2 q.natAbs) else (m * Nat.pow 2 q.natAbs, 1)

end Binary64

end AppManifest
