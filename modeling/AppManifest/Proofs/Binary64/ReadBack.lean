import Mathlib.Tactic.FieldSimp
import AppManifest.Binary64.Shortest
import AppManifest.Proofs.Binary64.Decimal
/-!
# Printed numbers read back

The text of a finite number is the decimal `shortest`, and that decimal is rounded to the number
again, with either sign (`ofDecimal?_shortest`). Where the search takes a decimal from a grid, the
search has tested this. It is left to show it for the exact decimal that stands behind the search:
the value of a magnitude is rounded to that magnitude (`nearestMagnitude_eq`), however it is written
as a fraction.

So nothing here depends on how far the search goes, or on how many digits are enough.
-/

namespace AppManifest.Binary64

/-- A finite number is a sign and a magnitude, which is how it is printed. -/
theorem exists_eq_finite {x : Binary64} (h : x.isFinite = true) :
    ∃ negative magnitude, x = .finite negative magnitude := by
  cases x with
  | finite negative magnitude => exact ⟨negative, magnitude, rfl⟩
  | infinity negative => exact absurd h (by simp [isFinite])
  | nan => exact absurd h (by simp [isFinite])

/-! ### Rounding an exact value -/

theorem roundHalfEven_mul {m d : Nat} (pos : 0 < d) : roundHalfEven (m * d) d = m := by
  unfold roundHalfEven
  dsimp only
  rw [Nat.mul_mod_left, Nat.mul_div_cancel _ pos, if_pos (by omega)]

/-- Whether a fraction is at least a power of two, tested on naturals. The test moves the power to
the side where its exponent is not negative. -/
theorem two_zpow_le_div_iff {n d : Nat} (pos : 0 < d) (e : Int) :
    (2 : ℚ) ^ e ≤ n / d ↔
      (if e < 0 then n * Nat.pow 2 e.natAbs ≥ d else n ≥ d * Nat.pow 2 e.natAbs) := by
  have hd : (0 : ℚ) < d := Nat.cast_pos.2 pos
  rw [le_div_iff₀ hd]
  split
  · next hneg =>
    have he : e = -(e.natAbs : Int) := by omega
    have hpow : (0 : ℚ) < 2 ^ e.natAbs := by positivity
    rw [he, zpow_neg, zpow_natCast, inv_mul_le_iff₀ hpow, mul_comm]
    simp only [Int.natAbs_neg, Int.natAbs_natCast]
    exact_mod_cast Iff.rfl
  · next hnonneg =>
    have he : e = (e.natAbs : Int) := by omega
    rw [he, zpow_natCast, mul_comm]
    simp only [Int.natAbs_natCast]
    exact_mod_cast Iff.rfl

/-- **`floorLog` is the binary logarithm of a fraction, rounded down.** The first guess is off by
one at most, and the test on naturals corrects it. -/
theorem floorLog_spec {n d : Nat} (hn : n ≠ 0) (hd : d ≠ 0) :
    (2 : ℚ) ^ floorLog n d ≤ n / d ∧ (n / d : ℚ) < 2 ^ (floorLog n d + 1) := by
  have hdpos : (0 : ℚ) < d := Nat.cast_pos.2 (Nat.pos_of_ne_zero hd)
  have hnlow : (2 : ℚ) ^ n.log2 ≤ n := by exact_mod_cast Nat.log2_self_le hn
  have hnhigh : (n : ℚ) < 2 ^ (n.log2 + 1) := by exact_mod_cast Nat.lt_log2_self
  have hdlow : (2 : ℚ) ^ d.log2 ≤ d := by exact_mod_cast Nat.log2_self_le hd
  have hdhigh : (d : ℚ) < 2 ^ (d.log2 + 1) := by exact_mod_cast Nat.lt_log2_self
  -- the difference of the logarithms is right, or one too great
  have hlow : (2 : ℚ) ^ ((n.log2 : Int) - d.log2 - 1) ≤ n / d := by
    rw [le_div_iff₀ hdpos]
    calc (2 : ℚ) ^ ((n.log2 : Int) - d.log2 - 1) * d
        ≤ 2 ^ ((n.log2 : Int) - d.log2 - 1) * 2 ^ (d.log2 + 1) :=
          mul_le_mul_of_nonneg_left hdhigh.le (zpow_nonneg (by norm_num) _)
      _ = 2 ^ n.log2 := by
          rw [← zpow_natCast 2 (d.log2 + 1), ← zpow_add₀ (by norm_num), ← zpow_natCast]
          congr 1
          push_cast
          ring
      _ ≤ n := hnlow
  have hhigh : (n / d : ℚ) < 2 ^ ((n.log2 : Int) - d.log2 + 1) := by
    rw [div_lt_iff₀ hdpos]
    calc (n : ℚ) < 2 ^ (n.log2 + 1) := hnhigh
      _ = 2 ^ ((n.log2 : Int) - d.log2 + 1) * 2 ^ d.log2 := by
          rw [← zpow_natCast 2 d.log2, ← zpow_add₀ (by norm_num), ← zpow_natCast]
          congr 1
          push_cast
          ring
      _ ≤ 2 ^ ((n.log2 : Int) - d.log2 + 1) * d :=
          mul_le_mul_of_nonneg_left hdlow (zpow_nonneg (by norm_num) _)
  have htest := two_zpow_le_div_iff (n := n) (Nat.pos_of_ne_zero hd) ((n.log2 : Int) - d.log2)
  unfold floorLog
  dsimp only
  by_cases hatLeast : (2 : ℚ) ^ ((n.log2 : Int) - d.log2) ≤ n / d
  · have hbool := htest.1 hatLeast
    rw [if_pos (by split <;> simp_all)]
    exact ⟨hatLeast, hhigh⟩
  · have hbool := mt htest.2 hatLeast
    rw [if_neg (by split <;> simp_all), sub_add_cancel]
    exact ⟨hlow, not_le.1 hatLeast⟩

/-! ### The value of a magnitude -/

/-- The number that a magnitude stands for. -/
def magnitudeValue (magnitude : Nat) : ℚ := (scaled magnitude).1 * 2 ^ (scaled magnitude).2

/-- The integer and the exponent of a magnitude: the least exponent for the numbers near zero, and
an integer of 53 bits for all others. -/
theorem scaled_spec {magnitude : Nat} (h : magnitude < 0x7FF0000000000000) :
    ((scaled magnitude).2 = -1074 ∧ (scaled magnitude).1 < 2 ^ 53 ∧
        (scaled magnitude).1 = magnitude) ∨
      (-1074 ≤ (scaled magnitude).2 ∧ (scaled magnitude).2 ≤ 971 ∧
        2 ^ 52 ≤ (scaled magnitude).1 ∧ (scaled magnitude).1 < 2 ^ 53 ∧
        ((scaled magnitude).2 + 1074).toNat * binade + (scaled magnitude).1 = magnitude) := by
  have hbinade : binade = 4503599627370496 := rfl
  unfold scaled
  dsimp only
  rw [hbinade]
  split
  · left
    omega
  · right
    omega

/-- Only zero stands for zero. -/
theorem scaled_ne_zero {magnitude : Nat} (h : magnitude < 0x7FF0000000000000)
    (nonzero : magnitude ≠ 0) : (scaled magnitude).1 ≠ 0 := by
  rcases scaled_spec h with ⟨-, -, heq⟩ | ⟨-, -, hlow, -⟩
  · omega
  · omega

/-- Powers of two that are near the least and the greatest numbers, between powers of ten. The
estimates are wide, since they are only used to keep the point in range. -/
theorem two_pow_lt : 2 ^ 1074 < 10 ^ 331 := by decide +kernel

theorem two_pow_lt' : 2 ^ 53 * 2 ^ 971 < 10 ^ 310 := by decide +kernel

/-- A finite magnitude other than zero stands for a number far above `10 ^ -331` and far below
`10 ^ 310`. -/
theorem magnitudeValue_bounds {magnitude : Nat} (h : magnitude < 0x7FF0000000000000)
    (nonzero : magnitude ≠ 0) :
    (10 : ℚ) ^ (-331 : Int) < magnitudeValue magnitude ∧
      magnitudeValue magnitude < (10 : ℚ) ^ (310 : Int) := by
  have hspec : -1074 ≤ (scaled magnitude).2 ∧ (scaled magnitude).2 ≤ 971 ∧
      (scaled magnitude).1 < 2 ^ 53 := by
    rcases scaled_spec h with ⟨hq, hm, -⟩ | ⟨hlow, hhigh, -, hm, -⟩
    · omega
    · exact ⟨hlow, hhigh, hm⟩
  obtain ⟨hlow, hhigh, hm⟩ := hspec
  have hone : (1 : ℚ) ≤ (scaled magnitude).1 :=
    Nat.one_le_cast.2 (Nat.pos_of_ne_zero (scaled_ne_zero h nonzero))
  have hm' : ((scaled magnitude).1 : ℚ) < 2 ^ 53 := by exact_mod_cast hm
  have hpow : (0 : ℚ) < 2 ^ (scaled magnitude).2 := zpow_pos (by norm_num) _
  rw [magnitudeValue]
  constructor
  · have hleast : (2 : ℚ) ^ 1074 < 10 ^ 331 := by exact_mod_cast two_pow_lt
    calc (10 : ℚ) ^ (-331 : Int) < 2 ^ (-1074 : Int) := by
          rw [zpow_neg, zpow_neg]
          exact inv_strictAnti₀ (by positivity) (by exact_mod_cast hleast)
      _ ≤ 2 ^ (scaled magnitude).2 := (zpow_le_zpow_iff_right₀ (by norm_num)).2 hlow
      _ ≤ (scaled magnitude).1 * 2 ^ (scaled magnitude).2 := le_mul_of_one_le_left hpow.le hone
  · have hgreatest : (2 : ℚ) ^ 53 * 2 ^ 971 < 10 ^ 310 := by exact_mod_cast two_pow_lt'
    calc (scaled magnitude).1 * (2 : ℚ) ^ (scaled magnitude).2
        < 2 ^ 53 * 2 ^ (scaled magnitude).2 := mul_lt_mul_of_pos_right hm' hpow
      _ ≤ 2 ^ 53 * 2 ^ (971 : Int) :=
          mul_le_mul_of_nonneg_left ((zpow_le_zpow_iff_right₀ (by norm_num)).2 hhigh) (by norm_num)
      _ < 10 ^ (310 : Int) := by exact_mod_cast hgreatest

/-- A multiple of a power of two is rounded to a multiple of that power without any loss. The
fraction may be given with any denominator. -/
theorem steps_eq {n d m : Nat} {q : Int} (hd : d ≠ 0) (h : (n / d : ℚ) = m * 2 ^ q) :
    (if q < 0 then roundHalfEven (n * Nat.pow 2 q.natAbs) d
      else roundHalfEven n (d * Nat.pow 2 q.natAbs)) = m := by
  have hdpos : 0 < d := Nat.pos_of_ne_zero hd
  have hd' : (d : ℚ) ≠ 0 := Nat.cast_ne_zero.2 hd
  rw [div_eq_iff hd'] at h
  simp only [Nat.pow_eq]
  split
  · next hneg =>
    have hq : q = -(q.natAbs : Int) := by omega
    have hpow : (2 : ℚ) ^ q.natAbs ≠ 0 := pow_ne_zero _ (by norm_num)
    have hscaled : n * 2 ^ q.natAbs = m * d := by
      have hcast : (n : ℚ) * 2 ^ q.natAbs = m * d := by
        rw [h]
        conv_lhs => rw [hq, zpow_neg, zpow_natCast]
        simp only [Int.natAbs_neg, Int.natAbs_natCast]
        field_simp
      exact_mod_cast hcast
    rw [hscaled, roundHalfEven_mul hdpos]
  · next hnonneg =>
    have hq : q = (q.natAbs : Int) := by omega
    have hscaled : n = m * (d * 2 ^ q.natAbs) := by
      have hcast : (n : ℚ) = m * (d * 2 ^ q.natAbs) := by
        rw [h]
        conv_lhs => rw [hq, zpow_natCast]
        ring
      exact_mod_cast hcast
    conv_lhs => rw [hscaled]
    exact roundHalfEven_mul (Nat.mul_pos hdpos (Nat.two_pow_pos _))

/-- **A fraction that is the value of a magnitude is rounded to that magnitude.** Its logarithm
gives the exponent of the magnitude, and nothing is lost at this exponent. -/
theorem nearestMagnitude_eq {n d magnitude : Nat} (hd : d ≠ 0) (nonzero : magnitude ≠ 0)
    (h : magnitude < 0x7FF0000000000000) (hvalue : (n / d : ℚ) = magnitudeValue magnitude) :
    nearestMagnitude n d = magnitude := by
  have hm := scaled_ne_zero h nonzero
  have hpow : (0 : ℚ) < 2 ^ (scaled magnitude).2 := zpow_pos (by norm_num) _
  have hn : n ≠ 0 := by
    intro hzero
    have hpos := (magnitudeValue_bounds h nonzero).1
    rw [← hvalue, hzero, Nat.cast_zero, zero_div] at hpos
    exact lt_asymm hpos (zpow_pos (by norm_num) _)
  obtain ⟨hlow, hhigh⟩ := floorLog_spec hn hd
  rw [hvalue, magnitudeValue] at hlow hhigh
  -- the integer has at most 53 bits, so the exponent of the fraction is the one of the magnitude
  have hbits : (scaled magnitude).1 < 2 ^ 53 →
      floorLog n d < 53 + (scaled magnitude).2 := by
    intro hlt
    have hlt' : ((scaled magnitude).1 : ℚ) < 2 ^ (53 : Int) := by exact_mod_cast hlt
    refine (zpow_lt_zpow_iff_right₀ (a := (2 : ℚ)) (by norm_num)).1 (lt_of_le_of_lt hlow ?_)
    rw [zpow_add₀ (by norm_num)]
    exact mul_lt_mul_of_pos_right hlt' hpow
  have hleading : 2 ^ 52 ≤ (scaled magnitude).1 →
      52 + (scaled magnitude).2 < floorLog n d + 1 := by
    intro hle
    have hle' : (2 : ℚ) ^ (52 : Int) ≤ (scaled magnitude).1 := by exact_mod_cast hle
    refine (zpow_lt_zpow_iff_right₀ (a := (2 : ℚ)) (by norm_num)).1 (lt_of_le_of_lt ?_ hhigh)
    rw [zpow_add₀ (by norm_num)]
    exact mul_le_mul_of_nonneg_right hle' hpow.le
  have hexponent : max (floorLog n d - 52) (-1074) = (scaled magnitude).2 := by
    rcases scaled_spec h with ⟨hq, hlt, -⟩ | ⟨hq, -, hle, hlt, -⟩
    · have := hbits hlt
      omega
    · have := hbits hlt
      have := hleading hle
      omega
  unfold nearestMagnitude
  dsimp only
  rw [if_neg hn, hexponent, steps_eq hd hvalue]
  rcases scaled_spec h with ⟨hq, -, heq⟩ | ⟨-, -, -, -, heq⟩
  · rw [hq, heq]
    exact (Nat.zero_add magnitude)
  · exact heq

/-! ### Reading decimals -/

/-- A fraction becomes the finite number of its nearest magnitude, and the sign is kept. -/
theorem ofRatio?_eq_some_iff {negative : Bool} {n d : Nat} {magnitude : Fin 0x7FF0000000000000} :
    ofRatio? negative n d = some (.finite negative magnitude) ↔
      nearestMagnitude n d = magnitude.val := by
  obtain ⟨magnitude, h⟩ := magnitude
  rw [ofRatio?]
  dsimp only
  constructor
  · intro heq
    split at heq
    · simpa using heq
    · exact absurd heq (by simp)
  · rintro rfl
    rw [dif_pos h]

/-- A decimal is rounded as one fraction, whatever the sign, or it is out of range with both signs.
-/
theorem exists_ofDecimal?_eq (x : Decimal) :
    (∀ negative, ofDecimal? negative x = none) ∨
      ∃ n d, ∀ negative, ofDecimal? negative x = ofRatio? negative n d := by
  unfold ofDecimal?
  split
  · exact Or.inr ⟨0, 1, fun _ ↦ rfl⟩
  · split
    · exact Or.inl fun _ ↦ rfl
    · split
      · exact Or.inr ⟨0, 1, fun _ ↦ rfl⟩
      · dsimp only
        split
        · exact Or.inr ⟨_, _, fun _ ↦ rfl⟩
        · exact Or.inr ⟨_, _, fun _ ↦ rfl⟩

/-- What reads back with one sign reads back with the other, so it is enough to look at positive
numbers. -/
theorem ofDecimal?_sign {x : Decimal} {magnitude : Fin 0x7FF0000000000000} {negative : Bool}
    (h : ofDecimal? negative x = some (.finite negative magnitude)) (other : Bool) :
    ofDecimal? other x = some (.finite other magnitude) := by
  rcases exists_ofDecimal?_eq x with hnone | ⟨n, d, heq⟩
  · rw [hnone] at h
    exact absurd h (by simp)
  · rw [heq, ofRatio?_eq_some_iff] at h
    rw [heq, ofRatio?_eq_some_iff, h]

/-- Only zero is read from no digits, and only zero from a decimal whose point is out of range. So
the point of what is printed is bounded. -/
theorem digits_of_ofDecimal? {x : Decimal} {magnitude : Fin 0x7FF0000000000000} {negative : Bool}
    (nonzero : magnitude.val ≠ 0) (h : ofDecimal? negative x = some (.finite negative magnitude)) :
    x.digits ≠ [] ∧ -330 ≤ x.point ∧ x.point ≤ 310 := by
  have hzero : ofRatio? negative 0 1 ≠ some (.finite negative magnitude) := by
    rw [Ne, ofRatio?_eq_some_iff]
    exact fun heq ↦ nonzero (heq.symm.trans rfl)
  unfold ofDecimal? at h
  split at h
  · exact absurd h hzero
  · next hdigits =>
    split at h
    · exact absurd h (by simp)
    · next hhigh =>
      split at h
      · exact absurd h hzero
      · next hlow => exact ⟨by simpa using hdigits, by omega, by omega⟩

/-- **A canonical decimal that stands for the value of a magnitude is rounded to it.** How many
digits the decimal has does not matter. -/
theorem ofDecimal?_eq {x : Decimal} (canonical : x.Canonical)
    {magnitude : Fin 0x7FF0000000000000} (nonzero : magnitude.val ≠ 0)
    (hvalue : x.value = magnitudeValue magnitude.val) (negative : Bool) :
    ofDecimal? negative x = some (.finite negative magnitude) := by
  obtain ⟨hlow, hhigh⟩ := magnitudeValue_bounds magnitude.isLt nonzero
  have hne : x.value ≠ 0 := by
    rw [hvalue]
    exact (lt_trans (zpow_pos (by norm_num) _) hlow).ne'
  have hdigits := Decimal.Canonical.nonempty_of_value_ne_zero hne
  rw [← hvalue] at hlow hhigh
  have hpointHigh : x.point - 1 < 310 := (zpow_lt_zpow_iff_right₀ (a := (10 : ℚ)) (by norm_num)).1
    (lt_of_le_of_lt (canonical.pow_le_value hdigits) hhigh)
  have hpointLow : -331 < x.point := (zpow_lt_zpow_iff_right₀ (a := (10 : ℚ)) (by norm_num)).1
    (lt_trans hlow (canonical.value_lt_pow hdigits))
  have hpow : (10 : ℚ) ≠ 0 := by norm_num
  unfold ofDecimal?
  rw [if_neg (by simpa using hdigits), if_neg (by omega), if_neg (by omega)]
  dsimp only
  split
  · next hneg =>
    have hexponent : x.point - x.digits.length =
        -((x.point - x.digits.length).natAbs : Int) := by omega
    rw [ofRatio?_eq_some_iff]
    refine nearestMagnitude_eq (pow_ne_zero _ (by norm_num)) nonzero magnitude.isLt ?_
    rw [← hvalue, Decimal.value, Nat.pow_eq]
    conv_rhs => rw [hexponent, zpow_neg, zpow_natCast]
    push_cast
    rw [div_eq_mul_inv]
  · next hnonneg =>
    have hexponent : x.point - x.digits.length =
        ((x.point - x.digits.length).natAbs : Int) := by omega
    rw [ofRatio?_eq_some_iff]
    refine nearestMagnitude_eq Nat.one_ne_zero nonzero magnitude.isLt ?_
    rw [← hvalue, Decimal.value, Nat.pow_eq]
    conv_rhs => rw [hexponent, zpow_natCast]
    push_cast
    rw [div_one]

/-! ### The shortest decimal -/

/-- The exact decimal stands for the number itself. -/
theorem value_exactDecimal (magnitude : Nat) :
    (exactDecimal magnitude).value = magnitudeValue magnitude := by
  have hten : (10 : ℚ) = 5 * 2 := by norm_num
  unfold exactDecimal
  dsimp only
  rw [magnitudeValue]
  split
  · next hneg =>
    have hq : (scaled magnitude).2 = -((scaled magnitude).2.natAbs : Int) := by omega
    have hfive : (5 : ℚ) ^ (scaled magnitude).2.natAbs ≠ 0 := pow_ne_zero _ (by norm_num)
    have hcancel : (5 : ℚ) ^ (scaled magnitude).2.natAbs * 5 ^ (scaled magnitude).2 = 1 := by
      conv_lhs => rw [hq, zpow_neg, zpow_natCast]
      simp only [Int.natAbs_neg, Int.natAbs_natCast]
      exact mul_inv_cancel₀ hfive
    rw [Decimal.value_ofScaled, hten, mul_zpow, Nat.pow_eq]
    push_cast
    rw [mul_assoc, ← mul_assoc (5 ^ _), hcancel, one_mul]
  · next hnonneg =>
    have hq : (scaled magnitude).2 = ((scaled magnitude).2.natAbs : Int) := by omega
    rw [Decimal.value_ofScaled, zpow_zero, mul_one, Nat.pow_eq]
    conv_rhs => rw [hq, zpow_natCast]
    push_cast
    rfl

/-- The exact decimal is a canonical one. -/
theorem canonical_exactDecimal (magnitude : Nat) : (exactDecimal magnitude).Canonical := by
  unfold exactDecimal
  dsimp only
  split
  · exact Decimal.canonical_ofScaled _ _
  · exact Decimal.canonical_ofScaled _ _

/-- The search takes canonical decimals only, and only those that read back. Nothing is said of
which of them it takes. -/
theorem of_firstThatReadsBack {x : Binary64} {negative : Bool} {n d : Nat} {point : Int}
    {counts : List Nat} {decimal : Decimal}
    (h : firstThatReadsBack x negative n d point counts = some decimal) :
    decimal.Canonical ∧ ofDecimal? negative decimal = some x := by
  induction counts with
  | nil => exact absurd h (by simp [firstThatReadsBack])
  | cons count counts ih =>
    rw [firstThatReadsBack] at h
    split at h
    · next found hfound =>
      obtain rfl := Option.some.inj h
      have hreads := List.find?_some hfound
      have hmem := List.mem_of_find?_eq_some hfound
      rw [gridNeighbours] at hmem
      simp only [List.mem_cons, List.not_mem_nil, or_false] at hmem
      refine ⟨?_, of_decide_eq_true hreads⟩
      rcases hmem with rfl | rfl
      · exact Decimal.canonical_ofScaled _ _
      · exact Decimal.canonical_ofScaled _ _
    · exact ih h

/-- What is printed is canonical and reads back: the decimal that the search takes, since the search
has tested it, and the exact one, since it stands for the same number. -/
theorem shortest_spec {magnitude : Fin 0x7FF0000000000000} (nonzero : magnitude.val ≠ 0) :
    (shortest magnitude).Canonical ∧
      ofDecimal? false (shortest magnitude) = some (.finite false magnitude) := by
  unfold shortest
  rw [if_neg nonzero]
  dsimp only
  cases hfirst : firstThatReadsBack (.finite false magnitude) false (ratio magnitude.val).1
      (ratio magnitude.val).2 (decimalPoint (ratio magnitude.val).1 (ratio magnitude.val).2)
      ((List.range 17).map (· + 1)) with
  | some decimal => exact of_firstThatReadsBack hfirst
  | none =>
    have hexact := canonical_exactDecimal magnitude.val
    exact ⟨hexact, ofDecimal?_eq hexact nonzero (value_exactDecimal magnitude.val) false⟩

/-- Zero is printed as the decimal without digits. -/
theorem shortest_zero {magnitude : Fin 0x7FF0000000000000} (h : magnitude.val = 0) :
    shortest magnitude = ⟨[], 0⟩ := by
  rw [shortest, if_pos h]

/-- What is printed is canonical, so its digits and its point determine its text. -/
theorem canonical_shortest (magnitude : Fin 0x7FF0000000000000) :
    (shortest magnitude).Canonical := by
  by_cases h : magnitude.val = 0
  · rw [shortest_zero h]
    exact .zero
  · exact (shortest_spec h).1

/-- **The printed decimal reads back**, with the sign that stands in front of it. Zeros keep their
sign in this way. -/
theorem ofDecimal?_shortest (negative : Bool) (magnitude : Fin 0x7FF0000000000000) :
    ofDecimal? negative (shortest magnitude) = some (.finite negative magnitude) := by
  by_cases h : magnitude.val = 0
  · rw [shortest_zero h]
    show ofRatio? negative 0 1 = _
    rw [ofRatio?_eq_some_iff, h]
    rfl
  · exact ofDecimal?_sign (shortest_spec h).2 negative

/-- The point of what is printed is near enough to be counted by a reader. -/
theorem point_shortest (magnitude : Fin 0x7FF0000000000000) :
    -330 ≤ (shortest magnitude).point ∧ (shortest magnitude).point ≤ 310 := by
  by_cases h : magnitude.val = 0
  · rw [shortest_zero h]
    decide
  · exact (digits_of_ofDecimal? h (shortest_spec h).2).2

end AppManifest.Binary64
