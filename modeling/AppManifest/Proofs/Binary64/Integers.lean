import Mathlib.Algebra.Ring.Int.Defs
import Mathlib.Algebra.Ring.Nat
import AppManifest.Binary64.Rounding
/-!
# Integers as floating point numbers

An integer that fits 64 bits is rounded to a finite number of the same sign
(`exists_ofInt_eq_finite`): its exponent is far below the greatest one, and rounding carries it by
at most one power of two.
-/

namespace AppManifest.Binary64

theorem roundHalfEven_le (n d : Nat) : roundHalfEven n d ≤ n / d + 1 := by
  unfold roundHalfEven
  dsimp only
  split
  · exact Nat.le_succ _
  · split
    · exact Nat.le_refl _
    · split
      · exact Nat.le_succ _
      · exact Nat.le_refl _

theorem floorLog_one {n : Nat} (pos : n ≠ 0) : floorLog n 1 = n.log2 := by
  have hle : 2 ^ n.log2 ≤ n := Nat.log2_self_le pos
  unfold floorLog
  simp [show Nat.log2 1 = 0 by decide, hle]

/-- The multiple that a number below `2 ^ 64` is rounded to is hardly above `2 ^ 53`. -/
theorem nearestMagnitude_lt {n : Nat} (h : n < 2 ^ 64) :
    nearestMagnitude n 1 < 0x7FF0000000000000 := by
  by_cases pos : n = 0
  · simp [nearestMagnitude, pos]
  have hlog : n.log2 < 64 := (Nat.log2_lt pos).2 h
  have hupper : n < 2 ^ (n.log2 + 1) := Nat.lt_log2_self
  -- `n` is rounded to a multiple of `2 ^ (log2 n - 52)`, whose exponent is far from both bounds
  have hmax : max ((n.log2 : Int) - 52) (-1074) = (n.log2 : Int) - 52 := by omega
  unfold nearestMagnitude
  simp only [pos, if_false, floorLog_one pos, hmax]
  have hexponent : ((n.log2 : Int) - 52 + 1074).toNat ≤ 1085 := by omega
  have hsteps : (if (n.log2 : Int) - 52 < 0
      then roundHalfEven (n * Nat.pow 2 ((n.log2 : Int) - 52).natAbs) 1
      else roundHalfEven n (1 * Nat.pow 2 ((n.log2 : Int) - 52).natAbs)) ≤ 2 ^ 53 + 1 := by
    split
    · next hneg =>
      -- below `2 ^ 52` the number is scaled up and nothing is lost
      have hsplit : n.log2 + 1 + ((n.log2 : Int) - 52).natAbs = 53 := by omega
      refine Nat.le_trans (roundHalfEven_le _ _) (Nat.succ_le_succ ?_)
      calc n * Nat.pow 2 ((n.log2 : Int) - 52).natAbs / 1
          = n * 2 ^ ((n.log2 : Int) - 52).natAbs := Nat.div_one _
        _ ≤ 2 ^ (n.log2 + 1) * 2 ^ ((n.log2 : Int) - 52).natAbs :=
          Nat.mul_le_mul_right _ (Nat.le_of_lt hupper)
        _ = 2 ^ 53 := by rw [← Nat.pow_add, hsplit]
    · next hnonneg =>
      have hsplit : n.log2 + 1 = 53 + ((n.log2 : Int) - 52).natAbs := by omega
      refine Nat.le_trans (roundHalfEven_le _ _) (Nat.succ_le_succ ?_)
      rw [Nat.one_mul]
      refine Nat.div_le_of_le_mul (Nat.le_of_lt ?_)
      calc n < 2 ^ (n.log2 + 1) := hupper
        _ = 2 ^ ((n.log2 : Int) - 52).natAbs * 2 ^ 53 := by
          rw [hsplit, Nat.pow_add, Nat.mul_comm]
  calc ((n.log2 : Int) - 52 + 1074).toNat * binade + _
      ≤ 1085 * binade + (2 ^ 53 + 1) := Nat.add_le_add (Nat.mul_le_mul_right _ hexponent) hsteps
    _ < 0x7FF0000000000000 := by decide

/-- **An integer from zero on that fits 64 bits is rounded to a finite number from zero on.** The
estimate is a wide one, since it only has to stay below the greatest finite number. -/
theorem exists_ofInt_eq_finite {i : Int} (nonneg : 0 ≤ i) (h : i < 2 ^ 64) :
    ∃ magnitude, ofInt i = .finite false magnitude := by
  have hsign : decide (i < 0) = false := by simpa using nonneg
  have hlt : nearestMagnitude i.natAbs 1 < 0x7FF0000000000000 := nearestMagnitude_lt (by omega)
  refine ⟨⟨nearestMagnitude i.natAbs 1, hlt⟩, ?_⟩
  rw [ofInt, hsign, ofRatio?, dif_pos hlt]
  rfl

end AppManifest.Binary64
