import Mathlib.Data.List.Induction
import Mathlib.Order.Monotone.Basic
import AppManifest.Text.Position
/-!
# Places lead back to their offsets

An offset cuts a text into the lines before it, each with the newline that ends it, and what is in
front of the offset on its own line (`exists_lines`). `lineColumn` counts the two parts, and
`offsetOf` adds their lengths up again: it skips as many lines as there are newlines
(`lineStart_ended`), and the line that it comes to is at least as long as the column asks for. So
nothing has to be said about what comes behind the offset, be it a newline, more text or nothing.

That other places have an offset too, within the text and in the order of the places, rests on the
starts of the lines alone: the offset at a place lies between the start of its line and the start of
the next one (`offsetOf_bounds`).
-/

namespace AppManifest.Text

variable {source : List UInt8}

/-! ### A text as lines -/

/-- Lines, each with the newline that ends it. -/
def ended (lines : List (List UInt8)) : List UInt8 := lines.flatMap (· ++ [newline])

theorem ended_cons (line : List UInt8) (lines : List (List UInt8)) :
    ended (line :: lines) = line ++ [newline] ++ ended lines := List.flatMap_cons ..

theorem ended_concat (lines : List (List UInt8)) (line : List UInt8) :
    ended (lines ++ [line]) = ended lines ++ line ++ [newline] := by
  rw [ended, List.flatMap_append, List.flatMap_singleton, ← List.append_assoc]
  rfl

/-- **A text is lines that have ended, and one that has not.** The latter may be empty. Both
`lineColumn` and `offsetOf` are read off this form. -/
theorem exists_lines (text : List UInt8) :
    ∃ lines last, text = ended lines ++ last ∧ (∀ line ∈ lines, newline ∉ line) ∧
      newline ∉ last := by
  induction text using List.reverseRecOn with
  | nil => exact ⟨[], [], rfl, List.forall_mem_nil _, List.not_mem_nil⟩
  | append_singleton text b ih =>
    obtain ⟨lines, last, rfl, hlines, hlast⟩ := ih
    by_cases hb : b = newline
    · refine ⟨lines ++ [last], [], by rw [hb, ended_concat, List.append_nil], ?_, List.not_mem_nil⟩
      exact List.forall_mem_append.2 ⟨hlines, List.forall_mem_singleton.2 hlast⟩
    · refine ⟨lines, last ++ [b], List.append_assoc .., hlines, ?_⟩
      rw [List.mem_append, List.mem_singleton, not_or]
      exact ⟨hlast, Ne.symm hb⟩

/-- There are as many newlines as lines that have ended. -/
theorem count_ended {lines : List (List UInt8)} (h : ∀ line ∈ lines, newline ∉ line) :
    (ended lines).count newline = lines.length := by
  induction lines with
  | nil => rfl
  | cons line lines ih =>
    obtain ⟨hline, hlines⟩ := List.forall_mem_cons.1 h
    rw [ended_cons, List.count_append, List.count_append, List.count_eq_zero_of_not_mem hline,
      List.count_singleton_self, ih hlines, List.length_cons, Nat.zero_add, Nat.add_comm]

/-- Going back from the end of a line that has not ended, one stops behind the line before it. -/
theorem takeWhile_reverse_append {last : List UInt8} (h : newline ∉ last)
    (lines : List (List UInt8)) :
    (ended lines ++ last).reverse.takeWhile (· != newline) = last.reverse := by
  have hlast : ∀ b ∈ last.reverse, (b != newline) = true := fun b hb ↦
    bne_iff_ne.2 fun e ↦ h (e ▸ List.mem_reverse.1 hb)
  have hlines : (ended lines).reverse.takeWhile (· != newline) = [] := by
    rcases List.eq_nil_or_concat lines with rfl | ⟨before, line, rfl⟩
    · rfl
    · rw [List.concat_eq_append, ended_concat, List.reverse_concat]
      exact List.takeWhile_cons_of_neg (by simp)
  rw [List.reverse_append, List.takeWhile_append_of_pos hlast, hlines, List.append_nil]

/-- The line and the column of an offset count what is in front of it: lines that have ended, and
bytes since then. -/
theorem lineColumn_eq {offset : Nat} {lines : List (List UInt8)} {last : List UInt8}
    (h : source.take offset = ended lines ++ last) (hlines : ∀ line ∈ lines, newline ∉ line)
    (hlast : newline ∉ last) : lineColumn source offset = (lines.length + 1, last.length) := by
  simp only [lineColumn, h]
  rw [takeWhile_reverse_append hlast, List.count_append, count_ended hlines,
    List.count_eq_zero_of_not_mem hlast, List.length_reverse, Nat.add_zero]

/-! ### Skipped lines -/

/-- A line goes on where no newline stands, so what is in front of an offset on its line counts
towards the length of the line. -/
theorem lineLength_append {line : List UInt8} (h : newline ∉ line) (rest : List UInt8) :
    lineLength (line ++ rest) = line.length + lineLength rest := by
  induction line with
  | nil => exact (Nat.zero_add _).symm
  | cons b line ih =>
    obtain ⟨hb, hline⟩ := not_or.1 (mt List.mem_cons.2 h)
    rw [List.cons_append, lineLength, if_neg (Ne.symm hb), ih hline, List.length_cons,
      Nat.add_right_comm]

/-- **As many lines as have ended are skipped.** What follows them is not looked at. -/
theorem lineStart_ended {lines : List (List UInt8)} (h : ∀ line ∈ lines, newline ∉ line)
    (rest : List UInt8) : lineStart (ended lines ++ rest) lines.length = (ended lines).length := by
  induction lines with
  | nil => rfl
  | cons line lines ih =>
    obtain ⟨hline, hlines⟩ := List.forall_mem_cons.1 h
    have hlength : lineLength (line ++ [newline] ++ (ended lines ++ rest)) =
        (line ++ [newline]).length := by
      rw [List.append_assoc, lineLength_append hline, List.length_append]
      rfl
    rw [ended_cons, List.append_assoc, List.length_cons, lineStart, hlength, List.drop_left,
      ih hlines]
    exact List.length_append.symm

/-- The offset at a place, as the start of its line and a step of at most the length of the line. -/
theorem offsetOf_succ (source : List UInt8) (count column : Nat) :
    offsetOf source (count + 1) column = some (lineStart source count +
      min (column - 1) (lineLength (source.drop (lineStart source count)))) := rfl

/-- **From an offset to its place and back.** The line is at least as long as the column asks for,
so the step within it is not cut short. -/
theorem offsetOf_lineColumn {offset : Nat} (h : offset ≤ source.length) :
    offsetOf source (lineColumn source offset).1 ((lineColumn source offset).2 + 1) =
      some offset := by
  obtain ⟨lines, last, hbefore, hlines, hlast⟩ := exists_lines (source.take offset)
  have hsource : source = ended lines ++ (last ++ source.drop offset) := by
    rw [← List.append_assoc, ← hbefore, List.take_append_drop]
  have hoffset : (ended lines).length + last.length = offset := by
    rw [← List.length_append, ← hbefore, List.length_take_of_le h]
  have hstart : lineStart source lines.length = (ended lines).length := by
    rw [hsource, lineStart_ended hlines]
  have hline : last.length ≤ lineLength (source.drop (ended lines).length) := by
    rw [hsource, List.drop_left, lineLength_append hlast]
    exact Nat.le_add_right ..
  rw [lineColumn_eq hbefore hlines hlast, offsetOf_succ, hstart, Nat.add_sub_cancel,
    Nat.min_eq_left hline, hoffset]

/-! ### All other places -/

theorem lineLength_le (source : List UInt8) : lineLength source ≤ source.length := by
  induction source with
  | nil => exact Nat.le_refl 0
  | cons b rest ih =>
    rw [lineLength, List.length_cons]
    split
    · exact Nat.le_add_left ..
    · exact Nat.succ_le_succ ih

/-- A line starts where the one before it ends. -/
theorem lineStart_succ (source : List UInt8) (count : Nat) :
    lineStart source (count + 1) =
      lineStart source count + lineLength (source.drop (lineStart source count)) := by
  induction count generalizing source with
  | zero => rw [lineStart, lineStart, lineStart, List.drop_zero, Nat.add_zero, Nat.zero_add]
  | succ count ih => rw [lineStart, ih, ← Nat.add_assoc, List.drop_drop, ← lineStart]

/-- Lines start within the text, also those that are skipped past its end. -/
theorem lineStart_le (source : List UInt8) (count : Nat) :
    lineStart source count ≤ source.length := by
  induction count with
  | zero => exact Nat.zero_le _
  | succ count ih =>
    have hline := lineLength_le (source.drop (lineStart source count))
    rw [List.length_drop] at hline
    rw [lineStart_succ]
    omega

theorem monotone_lineStart (source : List UInt8) : Monotone (lineStart source) :=
  monotone_nat_of_le_succ fun count ↦ lineStart_succ source count ▸ Nat.le_add_right ..

/-- **The offset at a place lies between the start of its line and that of the next.** So places on
different lines are in the order of the lines. -/
theorem offsetOf_bounds {count column offset : Nat}
    (h : offsetOf source (count + 1) column = some offset) :
    lineStart source count ≤ offset ∧ offset ≤ lineStart source (count + 1) := by
  rw [offsetOf_succ, Option.some.injEq] at h
  rw [lineStart_succ]
  omega

/-- Places that come later have later offsets. -/
theorem offsetOf_le_offsetOf {line column offset line' column' offset' : Nat}
    (h : offsetOf source line column = some offset)
    (h' : offsetOf source line' column' = some offset')
    (later : line < line' ∨ line = line' ∧ column ≤ column') : offset ≤ offset' := by
  rcases line with - | count
  · exact absurd h (by simp [offsetOf])
  rcases later with hline | ⟨rfl, hcolumn⟩
  · obtain ⟨count', rfl⟩ := Nat.exists_eq_add_one_of_ne_zero (Nat.ne_zero_of_lt hline)
    calc offset
        ≤ lineStart source (count + 1) := (offsetOf_bounds h).2
      _ ≤ lineStart source count' := monotone_lineStart source (Nat.lt_succ_iff.1 hline)
      _ ≤ offset' := (offsetOf_bounds h').1
  · rw [offsetOf_succ, Option.some.injEq] at h h'
    omega

/-- Every place has an offset within the text, if its line is counted from one. -/
theorem exists_offsetOf {line : Nat} (h : line ≠ 0) (column : Nat) :
    ∃ offset ≤ source.length, offsetOf source line column = some offset := by
  obtain ⟨count, rfl⟩ := Nat.exists_eq_add_one_of_ne_zero h
  have hsome := offsetOf_succ source count column
  exact ⟨_, (offsetOf_bounds hsome).2.trans (lineStart_le source (count + 1)), hsome⟩

/-- **The place of every offset leads back to it, and every place leads somewhere.** Whatever the
text, an offset from its start to its end is found again from the number of newlines before it and
the number of bytes since the last of them, both counted from one. There is an offset within the
text for each line and column, unless the line is zero; and a place on a later line, or further on
the same line, does not have an earlier offset. -/
theorem offsetOf_inverts_lineColumn (source : List UInt8) :
    (∀ offset ≤ source.length,
        offsetOf source (lineColumn source offset).1 ((lineColumn source offset).2 + 1) =
          some offset) ∧
      (∀ line column, offsetOf source line column = none ↔ line = 0) ∧
      (∀ line column, line ≠ 0 →
        ∃ offset ≤ source.length, offsetOf source line column = some offset) ∧
      ∀ line column line' column' offset offset',
        offsetOf source line column = some offset →
        offsetOf source line' column' = some offset' →
        line < line' ∨ line = line' ∧ column ≤ column' → offset ≤ offset' := by
  refine ⟨fun offset ↦ offsetOf_lineColumn, fun line column ↦ ⟨fun h ↦ ?_, fun h ↦ if_pos h⟩,
    fun line column h ↦ exists_offsetOf h column,
    fun line column line' column' offset offset' ↦ offsetOf_le_offsetOf⟩
  by_contra hline
  obtain ⟨offset, -, hsome⟩ : ∃ offset ≤ source.length, offsetOf source line column = some offset :=
    exists_offsetOf hline column
  exact absurd (h.symm.trans hsome) (by simp)

/-- Behind a final newline, where no byte is left, and far to the right of the line before it. -/
theorem final_newline_is_found :
    let source := bytes "a\n"
    lineColumn source 2 = (2, 0) ∧ offsetOf source 2 1 = some 2 ∧
      ∃ offset ≤ source.length, offsetOf source 1 80 = some offset ∧ offset ≤ 2 := by
  intro source
  obtain ⟨hback, -, hexists, hmono⟩ := offsetOf_inverts_lineColumn source
  have hplace : offsetOf source 2 1 = some 2 := hback 2 (by decide)
  obtain ⟨offset, hle, hoffset⟩ := hexists 1 80 (by decide)
  exact ⟨by decide, hplace, offset, hle, hoffset,
    hmono 1 80 2 1 offset 2 hoffset hplace (Or.inl (by decide))⟩

end AppManifest.Text
