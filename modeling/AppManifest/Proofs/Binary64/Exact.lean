import AppManifest.Proofs.Binary64.ReadBack
/-!
# Exact integers

A finite floating point number stands for a rational number. An integer is rounded to itself exactly
if some finite number stands for it (`toRat?_ofInt_iff`); of the integers beyond `2 ^ 53` only some
do.
-/

namespace AppManifest.Binary64

/-- The rational number that a finite number stands for. -/
def toRat? : Binary64 → Option ℚ
  | .finite negative magnitude =>
    some (if negative then -magnitudeValue magnitude else magnitudeValue magnitude)
  | _ => none

theorem magnitudeValue_zero : magnitudeValue 0 = 0 := by
  have hscaled : (scaled 0).1 = 0 := rfl
  rw [magnitudeValue, hscaled, Nat.cast_zero, zero_mul]

theorem magnitudeValue_pos {magnitude : Nat} (h : magnitude < 0x7FF0000000000000)
    (nonzero : magnitude ≠ 0) : 0 < magnitudeValue magnitude :=
  lt_trans (zpow_pos (by norm_num) _) (magnitudeValue_bounds h nonzero).1

theorem toRat?_ofInt_zero : (ofInt 0).toRat? = some 0 := by
  have hzero : ofInt 0 = .finite false ⟨0, by decide⟩ := by decide
  rw [hzero, toRat?]
  simp [magnitudeValue_zero]

/-- An integer that a finite number stands for is rounded to that number. -/
theorem ofInt_eq_of_toRat? {i : Int} {x : Binary64} (nonzero : i ≠ 0)
    (h : x.toRat? = some (i : ℚ)) : ofInt i = x := by
  cases x with
  | infinity negative => exact absurd h (by simp [toRat?])
  | nan => exact absurd h (by simp [toRat?])
  | finite negative magnitude =>
    have hvalue : (if negative then -magnitudeValue magnitude else magnitudeValue magnitude) =
        (i : ℚ) := Option.some.inj h
    have hmagnitude : magnitude.val ≠ 0 := by
      intro hzero
      rw [hzero, magnitudeValue_zero, neg_zero, ite_self] at hvalue
      exact nonzero (by exact_mod_cast hvalue.symm)
    have hpos := magnitudeValue_pos magnitude.isLt hmagnitude
    -- the sign of the number is the sign of the integer, and its magnitude the absolute value
    have hparts : decide (i < 0) = negative ∧ ((i.natAbs : ℕ) : ℚ) = magnitudeValue magnitude := by
      have habs : ((i.natAbs : ℕ) : ℚ) = |(i : ℚ)| := by
        rw [Nat.cast_natAbs, Int.cast_abs]
      cases negative with
      | true =>
        rw [if_pos rfl] at hvalue
        have hneg : (i : ℚ) < 0 := by linarith
        refine ⟨decide_eq_true (by exact_mod_cast hneg), ?_⟩
        rw [habs, abs_of_neg hneg, ← hvalue, neg_neg]
      | false =>
        rw [if_neg (by decide)] at hvalue
        have hpos' : (0 : ℚ) < i := by linarith
        refine ⟨decide_eq_false (not_lt.2 (le_of_lt (by exact_mod_cast hpos'))), ?_⟩
        rw [habs, abs_of_pos hpos', ← hvalue]
    have hnearest : nearestMagnitude i.natAbs 1 = magnitude.val :=
      nearestMagnitude_eq one_ne_zero hmagnitude magnitude.isLt
        (by rw [Nat.cast_one, div_one, hparts.2])
    rw [ofInt, ofRatio?_eq_some_iff.2 hnearest, hparts.1]
    rfl

/-- **An integer is rounded to itself exactly if a floating point number stands for it.** Beyond 53
bits some integers are rounded, so a number of cores may be held as another number than the one that
was given. -/
theorem toRat?_ofInt_iff {i : Int} :
    (ofInt i).toRat? = some (i : ℚ) ↔ ∃ x : Binary64, x.toRat? = some (i : ℚ) := by
  constructor
  · exact fun h ↦ ⟨_, h⟩
  · rintro ⟨x, h⟩
    by_cases hzero : i = 0
    · rw [hzero, Int.cast_zero]
      exact toRat?_ofInt_zero
    · rw [ofInt_eq_of_toRat? hzero h, h]

end AppManifest.Binary64
