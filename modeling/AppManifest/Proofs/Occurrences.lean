import Mathlib.Data.List.Induction
import Mathlib.Data.List.Nodup
/-!
# First and last occurrences

Where things are written under names one after the other, the names are in the order in which they
first occur, and under each name is what was written last.

* What is kept of a list without repetitions is `List.eraseDups`: each element once, in the order of
  the first occurrences. `FirstOccurrences` says this by positions in the list, without a loop. All
  of it rests on what one more element at the end does (`eraseDups_concat`).
* `IsLast` picks the last element of a list that has a property.
-/

namespace AppManifest

variable {α β : Type}

/-! ### First occurrences -/

section FirstOccurrences

variable [DecidableEq α] [DecidableEq β]

/-- A list holds the elements of another one, each once and in the order in which they first occur
there. -/
structure FirstOccurrences (all once : List α) : Prop where
  nodup : once.Nodup
  mem_iff : ∀ a, a ∈ once ↔ a ∈ all
  order : once.Pairwise fun a b ↦ all.idxOf a < all.idxOf b

/-- An element at the end is kept behind the others, unless it has been there before. -/
theorem eraseDups_concat (xs : List α) (a : α) :
    (xs ++ [a]).eraseDups = if a ∈ xs then xs.eraseDups else xs.eraseDups ++ [a] := by
  rw [List.eraseDups_append]
  split
  · next h => simp [List.removeAll, h]
  · next h => simp [List.removeAll, h, List.eraseDups_cons]

/-- Different elements stay different under an injective function. -/
theorem eraseDups_map {f : α → β} (hf : f.Injective) (xs : List α) :
    (xs.map f).eraseDups = xs.eraseDups.map f := by
  induction xs using List.reverseRecOn with
  | nil => rfl
  | append_singleton xs a ih =>
    rw [List.map_append, List.map_singleton, eraseDups_concat, eraseDups_concat, ih]
    by_cases h : a ∈ xs
    · rw [if_pos h, if_pos (List.mem_map_of_mem h)]
    · rw [if_neg h, if_neg (mt (List.mem_map_of_injective hf).1 h), List.map_append,
        List.map_singleton]

/-- What is kept keeps its order, and what first occurs at the end occurs behind all of it. -/
theorem pairwise_idxOf_eraseDups (xs : List α) :
    xs.eraseDups.Pairwise fun a b ↦ xs.idxOf a < xs.idxOf b := by
  induction xs using List.reverseRecOn with
  | nil => exact List.Pairwise.nil
  | append_singleton xs a ih =>
    have hsame {b : α} (hb : b ∈ xs.eraseDups) : (xs ++ [a]).idxOf b = xs.idxOf b :=
      List.idxOf_append_of_mem (List.mem_eraseDups.1 hb)
    have hold : xs.eraseDups.Pairwise fun b c ↦ (xs ++ [a]).idxOf b < (xs ++ [a]).idxOf c :=
      ih.imp_of_mem fun hb hc hlt ↦ by rwa [hsame hb, hsame hc]
    rw [eraseDups_concat]
    split
    · exact hold
    · next hnew =>
      refine List.pairwise_append.2 ⟨hold, List.pairwise_singleton _ _, fun b hb c hc ↦ ?_⟩
      obtain rfl := List.mem_singleton.1 hc
      rw [hsame hb, List.idxOf_append_of_notMem hnew]
      exact Nat.lt_add_right _ (List.idxOf_lt_length_iff.2 (List.mem_eraseDups.1 hb))

/-- **Without repetitions a list has its elements in the order of their first occurrences.** The
positions are those in the list with its repetitions. -/
theorem firstOccurrences_eraseDups (xs : List α) : FirstOccurrences xs xs.eraseDups := by
  have order := pairwise_idxOf_eraseDups xs
  have nodup : xs.eraseDups.Nodup := order.imp fun h ↦ ne_of_apply_ne (xs.idxOf ·) (Nat.ne_of_lt h)
  exact ⟨nodup, fun a ↦ List.mem_eraseDups, order⟩

/-- What comes again is left out, and what comes later stays behind. -/
example : ["b", "a", "b", "c", "a"].eraseDups = ["b", "a", "c"] := by decide

end FirstOccurrences

/-! ### Last occurrences -/

/-- An element is the last one of a list that has a property. -/
def IsLast (p : α → Prop) (xs : List α) (a : α) : Prop :=
  ∃ before after, xs = before ++ a :: after ∧ p a ∧ ∀ b ∈ after, ¬ p b

theorem IsLast.holds {p : α → Prop} {xs : List α} {a : α} (h : IsLast p xs a) : p a := by
  obtain ⟨before, after, -, ha, -⟩ := h
  exact ha

/-- The last element of a list of images is the image of the last element. -/
theorem isLast_map_iff {p : β → Prop} {f : α → β} {xs : List α} {b : β} :
    IsLast p (xs.map f) b ↔ ∃ a, f a = b ∧ IsLast (fun a ↦ p (f a)) xs a := by
  constructor
  · rintro ⟨before, after, heq, hb, hafter⟩
    obtain ⟨front, rest, rfl, rfl, hrest⟩ := List.map_eq_append_iff.1 heq
    obtain ⟨a, behind, rfl, rfl, rfl⟩ := List.map_eq_cons_iff.1 hrest
    exact ⟨a, rfl, front, behind, rfl, hb, fun c hc ↦ hafter (f c) (List.mem_map_of_mem hc)⟩
  · rintro ⟨a, rfl, before, after, rfl, ha, hafter⟩
    exact ⟨before.map f, after.map f, by rw [List.map_append, List.map_cons], ha,
      List.forall_mem_map.2 hafter⟩

end AppManifest
