import Mathlib.Algebra.Order.Field.Power
import Mathlib.Algebra.Order.Field.Rat
import Mathlib.Data.List.Basic
import Mathlib.Data.List.TakeWhile
import Mathlib.Tactic.Linarith
import Mathlib.Tactic.NormNum
import Mathlib.Tactic.Ring
import AppManifest.Binary64.Decimal
/-!
# Decimals and what they stand for

A list of digits is a number in base ten, and the digits of a number are such a list
(`natOf_digitsOf`). A decimal in canonical form (`Decimal.Canonical`) starts and ends with a digit
other than zero, or has no digits. Everything that `ofParts` makes is canonical, and `ofParts` gives
back a canonical decimal from its digits with any zeros around them (`ofParts_eq`):
this is what makes reading the inverse of printing.

What a decimal stands for is a rational number (`Decimal.value`). For a canonical one its point says
between which powers of ten that is (`Canonical.pow_le_value`, `Canonical.value_lt_pow`).
-/

namespace AppManifest.Decimal

/-! ### Digits in base ten -/

/-- Reading digits onto a number moves it to the left by as many places. -/
theorem foldl_eq (digits : List Nat) (start : Nat) :
    digits.foldl (fun acc d ↦ acc * 10 + d) start = start * 10 ^ digits.length + natOf digits := by
  induction digits generalizing start with
  | nil => simp [natOf]
  | cons d rest ih =>
    rw [natOf, List.foldl_cons, List.foldl_cons, ih, ih (0 * 10 + d), List.length_cons, pow_succ]
    ring

/-- Digits in front of others count as many places more. -/
theorem natOf_append (first second : List Nat) :
    natOf (first ++ second) = natOf first * 10 ^ second.length + natOf second := by
  rw [natOf, List.foldl_append, foldl_eq second]
  rfl

theorem natOf_cons (d : Nat) (rest : List Nat) :
    natOf (d :: rest) = d * 10 ^ rest.length + natOf rest := by
  have h := natOf_append [d] rest
  rwa [List.singleton_append, show natOf [d] = d by simp [natOf]] at h

@[simp] theorem natOf_replicate_zero (n : Nat) : natOf (List.replicate n 0) = 0 := by
  induction n with
  | zero => rfl
  | succ n ih => rw [List.replicate_succ, natOf_cons, ih, Nat.zero_mul]

theorem natOf_lt {digits : List Nat} (h : ∀ d ∈ digits, d < 10) :
    natOf digits < 10 ^ digits.length := by
  induction digits with
  | nil => simp [natOf]
  | cons d rest ih =>
    obtain ⟨hd, hrest⟩ := List.forall_mem_cons.1 h
    have hlt := ih hrest
    rw [natOf_cons, List.length_cons, pow_succ]
    calc d * 10 ^ rest.length + natOf rest < d * 10 ^ rest.length + 10 ^ rest.length := by omega
      _ = (d + 1) * 10 ^ rest.length := by ring
      _ ≤ 10 * 10 ^ rest.length := Nat.mul_le_mul_right _ (by omega)
      _ = 10 ^ rest.length * 10 := Nat.mul_comm _ _

/-- The digits of a number, the last one split off. The digits are found from the end, and the facts
below follow by induction on the number. -/
theorem digitsOf_eq (n : Nat) :
    digitsOf n = if n < 10 then [n] else digitsOf (n / 10) ++ [n % 10] := by
  have hvalue : ∀ d < 10, d.digitChar.toNat - '0'.toNat = d := by decide
  rw [digitsOf, Nat.toDigits_eq_if (by decide)]
  split
  · next h => rw [List.map_singleton, hvalue n h]
  · rw [List.map_append, List.map_singleton, hvalue _ (Nat.mod_lt _ (by decide))]
    rfl

/-- **The digits of a number write that number.** Printing and reading integers rests on it. -/
theorem natOf_digitsOf (n : Nat) : natOf (digitsOf n) = n := by
  induction n using Nat.strongRecOn with
  | ind n ih =>
    rw [digitsOf_eq]
    split
    · simp [natOf]
    · rw [natOf_append, ih (n / 10) (by omega)]
      simp only [natOf, List.length_singleton, List.foldl_cons, List.foldl_nil]
      omega

/-- Digits are below ten, so each of them has a character. -/
theorem lt_of_mem_digitsOf {n d : Nat} (h : d ∈ digitsOf n) : d < 10 := by
  induction n using Nat.strongRecOn with
  | ind n ih =>
    rw [digitsOf_eq] at h
    split at h
    · rw [List.mem_singleton] at h
      omega
    · rcases List.mem_append.1 h with h | h
      · exact ih (n / 10) (by omega) h
      · rw [List.mem_singleton] at h
        omega

/-- Only zero has a leading zero, and it has no other digit. -/
theorem digitsOf_eq_cons_zero {n : Nat} {rest : List Nat} (h : digitsOf n = 0 :: rest) :
    rest = [] := by
  induction n using Nat.strongRecOn generalizing rest with
  | ind n ih =>
    rw [digitsOf_eq] at h
    split at h
    · exact (List.cons.inj h).2.symm
    · cases hfirst : digitsOf (n / 10) with
      | nil =>
        rw [hfirst, List.nil_append] at h
        exact (List.cons.inj h).2.symm
      | cons d more =>
        -- the first digit is that of a smaller number, which would be zero
        rw [hfirst, List.cons_append] at h
        obtain ⟨rfl, -⟩ := List.cons.inj h
        have hzero : natOf (digitsOf (n / 10)) = 0 := by
          rw [hfirst, ih (n / 10) (by omega) hfirst]
          rfl
        rw [natOf_digitsOf] at hzero
        omega

/-- Every number has a digit; zero has the digit zero. -/
theorem digitsOf_ne_nil (n : Nat) : digitsOf n ≠ [] := by
  rw [digitsOf_eq]
  split <;> simp

/-! ### Digits without zeros around them -/

/-- Digits that neither start nor end with zero. -/
structure Trimmed (digits : List Nat) : Prop where
  nonempty : digits ≠ []
  head : digits.head? ≠ some 0
  last : digits.getLast? ≠ some 0

/-- Digits are all zero, or trimmed digits with zeros around them. These are the two cases of
`ofParts`. -/
theorem exists_trimmed (all : List Nat) :
    (∀ d ∈ all, d = 0) ∨ ∃ before digits after,
      all = List.replicate before 0 ++ digits ++ List.replicate after 0 ∧ Trimmed digits := by
  induction all with
  | nil => exact Or.inl fun d h ↦ absurd h List.not_mem_nil
  | cons d rest ih =>
    by_cases hd : d = 0
    · subst hd
      rcases ih with hzero | ⟨before, digits, after, rfl, trimmed⟩
      · exact Or.inl (List.forall_mem_cons.2 ⟨rfl, hzero⟩)
      · exact Or.inr ⟨before + 1, digits, after, by simp [List.replicate_succ], trimmed⟩
    · right
      rcases ih with hzero | ⟨before, digits, after, rfl, trimmed⟩
      · refine ⟨0, [d], rest.length, ?_, ⟨by simp, by simpa using hd, by simpa using hd⟩⟩
        rw [List.eq_replicate_of_mem hzero]
        simp
      · -- the zeros in front of the trimmed digits now stand between digits
        refine ⟨0, d :: (List.replicate before 0 ++ digits), after, by simp,
          ⟨by simp, by simpa using hd, ?_⟩⟩
        rw [← List.cons_append, List.getLast?_append_of_ne_nil _ trimmed.nonempty]
        exact trimmed.last

/-- Dropping the zeros in front leaves digits that do not start with one, together with the zeros
behind them. -/
theorem dropWhile_zeros {before : Nat} {digits after : List Nat} (nonempty : digits ≠ [])
    (head : digits.head? ≠ some 0) :
    (List.replicate before 0 ++ digits ++ after).dropWhile (· == 0) = digits ++ after := by
  obtain ⟨d, rest, rfl⟩ := List.exists_cons_of_ne_nil nonempty
  have hd : d ≠ 0 := by simpa using head
  rw [List.append_assoc, List.dropWhile_append_of_pos (by simp)]
  simp [hd]

/-- **Zeros around the digits do not change a decimal**, but for the place of its point. All texts
of one number are brought to the same decimal by it. -/
theorem ofParts_eq {whole fraction digits : List Nat} {before after : Nat} {exponent : Int}
    (hall : whole ++ fraction = List.replicate before 0 ++ digits ++ List.replicate after 0)
    (trimmed : Trimmed digits) :
    ofParts whole fraction exponent = ⟨digits, whole.length - before + exponent⟩ := by
  have hsignificant : (whole ++ fraction).dropWhile (· == 0) =
      digits ++ List.replicate after 0 := by
    rw [hall, dropWhile_zeros trimmed.nonempty trimmed.head]
  have htrimmed : ((digits ++ List.replicate after 0).reverse.dropWhile (· == 0)).reverse =
      digits := by
    have hreverse := @dropWhile_zeros after digits.reverse []
      (List.reverse_ne_nil_iff.2 trimmed.nonempty) (by simpa using trimmed.last)
    rw [List.append_nil, List.append_nil] at hreverse
    rw [List.reverse_append, List.reverse_replicate, hreverse, List.reverse_reverse]
  have hdropped : (whole ++ fraction).length - (digits ++ List.replicate after 0).length =
      before := by
    rw [hall]
    simp only [List.length_append, List.length_replicate]
    omega
  unfold ofParts
  dsimp only
  rw [hsignificant, htrimmed, hdropped, if_neg (by simpa using trimmed.nonempty)]

theorem ofParts_eq_zero {whole fraction : List Nat} {exponent : Int}
    (h : ∀ d ∈ whole ++ fraction, d = 0) : ofParts whole fraction exponent = ⟨[], 0⟩ := by
  have hsignificant : (whole ++ fraction).dropWhile (· == 0) = [] :=
    List.dropWhile_eq_nil_iff.2 fun d hmem ↦ by simp [h d hmem]
  unfold ofParts
  dsimp only
  rw [hsignificant]
  rfl

/-! ### Canonical decimals -/

/-- The form that parts are brought into: zero, or trimmed digits in base ten. -/
inductive Canonical : Decimal → Prop where
  | zero : Canonical ⟨[], 0⟩
  | digits {digits : List Nat} {point : Int} (trimmed : Trimmed digits)
      (bounded : ∀ d ∈ digits, d < 10) : Canonical ⟨digits, point⟩

/-- What is made of parts is canonical, whether there are digits other than zero among them or not.
-/
theorem canonical_ofParts {whole fraction : List Nat} (h : ∀ d ∈ whole ++ fraction, d < 10)
    (exponent : Int) : (ofParts whole fraction exponent).Canonical := by
  rcases exists_trimmed (whole ++ fraction) with hzero | ⟨before, digits, after, hall, trimmed⟩
  · rw [ofParts_eq_zero hzero]
    exact .zero
  · rw [ofParts_eq hall trimmed]
    refine .digits trimmed fun d hmem ↦ h d ?_
    rw [hall]
    exact List.mem_append_left _ (List.mem_append_right _ hmem)

/-- A number with a scale makes a canonical decimal, through the digits of the number. -/
theorem canonical_ofScaled (n : Nat) (exponent : Int) : (ofScaled n exponent).Canonical :=
  canonical_ofParts (fun _ h ↦ lt_of_mem_digitsOf (by simpa using h)) exponent

/-! ### What a decimal stands for -/

/-- The number that a decimal stands for. -/
def value (x : Decimal) : ℚ := natOf x.digits * 10 ^ (x.point - x.digits.length)

/-- A number with a scale stands for the number times that power of ten: neither trimming zeros nor
moving the point changes what it stands for. -/
theorem value_ofScaled (n : Nat) (exponent : Int) :
    (ofScaled n exponent).value = n * 10 ^ exponent := by
  have hn : natOf (digitsOf n) = n := natOf_digitsOf n
  have hnil : digitsOf n ++ [] = digitsOf n := List.append_nil _
  rcases exists_trimmed (digitsOf n) with hzero | ⟨before, digits, after, hall, trimmed⟩
  · have hn' : n = 0 := by
      rw [← hn, List.eq_replicate_of_mem hzero, natOf_replicate_zero]
    rw [ofScaled, ofParts_eq_zero (hnil.symm ▸ hzero), hn']
    simp [value, natOf]
  · -- the zeros behind the digits are what the point moves by
    have hdigits : n = natOf digits * 10 ^ after := by
      rw [← hn, hall, natOf_append, natOf_append, natOf_replicate_zero, natOf_replicate_zero,
        List.length_replicate, Nat.zero_mul, Nat.zero_add, Nat.add_zero]
    have hlength : (digitsOf n).length = before + digits.length + after := by
      rw [hall]
      simp [Nat.add_assoc]
    have hpoint : ((digitsOf n).length : Int) - before + exponent - digits.length =
        after + exponent := by omega
    rw [ofScaled, ofParts_eq (hnil.trans hall) trimmed, value]
    dsimp only
    rw [hpoint, zpow_add₀ (by norm_num), zpow_natCast]
    conv_rhs => rw [hdigits]
    push_cast
    ring

namespace Canonical

variable {x : Decimal}

/-- Canonical digits are all there is, and the first one is not zero. So their number lies between
two powers of ten that follow each other. -/
theorem natOf_bounds (canonical : x.Canonical) (nonempty : x.digits ≠ []) :
    10 ^ (x.digits.length - 1) ≤ natOf x.digits ∧ natOf x.digits < 10 ^ x.digits.length := by
  cases canonical with
  | zero => exact absurd rfl nonempty
  | @digits digits point trimmed bounded =>
    refine ⟨?_, natOf_lt bounded⟩
    obtain ⟨d, rest, rfl⟩ := List.exists_cons_of_ne_nil nonempty
    have hd : d ≠ 0 := by simpa using trimmed.head
    show 10 ^ rest.length ≤ natOf (d :: rest)
    rw [natOf_cons]
    exact Nat.le_add_right_of_le (Nat.le_mul_of_pos_left _ (by omega))

/-- A canonical decimal is at least the power of ten below its point. -/
theorem pow_le_value (canonical : x.Canonical) (nonempty : x.digits ≠ []) :
    10 ^ (x.point - 1) ≤ x.value := by
  have hlength : 0 < x.digits.length := List.length_pos_iff.2 nonempty
  have hsplit : x.point - 1 =
      ((x.digits.length - 1 : Nat) : Int) + (x.point - x.digits.length) := by omega
  have hle : ((10 ^ (x.digits.length - 1) : Nat) : ℚ) ≤ natOf x.digits :=
    Nat.cast_le.2 (canonical.natOf_bounds nonempty).1
  rw [hsplit, zpow_add₀ (by norm_num), zpow_natCast, value]
  push_cast at hle
  exact mul_le_mul_of_nonneg_right hle (zpow_nonneg (by norm_num) _)

/-- A canonical decimal is less than the power of ten at its point. With `pow_le_value`, the point
can be read off the value. -/
theorem value_lt_pow (canonical : x.Canonical) (nonempty : x.digits ≠ []) :
    x.value < 10 ^ x.point := by
  have hsplit : x.point = (x.digits.length : Int) + (x.point - x.digits.length) := by omega
  have hlt : (natOf x.digits : ℚ) < ((10 ^ x.digits.length : Nat) : ℚ) :=
    Nat.cast_lt.2 (canonical.natOf_bounds nonempty).2
  conv_rhs => rw [hsplit, zpow_add₀ (by norm_num), zpow_natCast]
  push_cast at hlt
  exact mul_lt_mul_of_pos_right hlt (zpow_pos (by norm_num) _)

theorem nonempty_of_value_ne_zero (h : x.value ≠ 0) : x.digits ≠ [] := by
  intro hnil
  exact h (by simp [value, hnil, natOf])

end Canonical

end AppManifest.Decimal
