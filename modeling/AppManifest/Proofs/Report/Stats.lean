import Mathlib.Algebra.BigOperators.Group.List.Lemmas
import Mathlib.Algebra.GroupWithZero.Nat
import AppManifest.Proofs.Entries
import AppManifest.Report.Info
/-!
# Every block is counted once

The summary of a document counts its blocks by kind, known or not, in one pass: each block raises
the count of its kind, or starts it behind the others. One block more is all that has to be looked
at. It adds its kind as one more element would be added to a list without repetitions
(`Entries.keys_insert`), and it changes no count but that of its kind (`getD_countKind`). So after a
pass the kinds are the first occurrences, with the number of occurrences of each
(`foldl_countKind`).
-/

namespace AppManifest.Document

/-! ### One pass -/

/-- One more block of a kind is counted under this kind alone. -/
theorem getD_countKind (counts : Entries Nat) (kind other : String) :
    ((countKind counts kind).get? other).getD 0 =
      (counts.get? other).getD 0 + if kind = other then 1 else 0 := by
  rw [countKind, Entries.get?_insert]
  split
  · next h => rw [h, Option.getD_some]
  · rw [Nat.add_zero]

theorem keys_foldl_countKind (kinds : List String) :
    (kinds.foldl countKind []).keys = kinds.eraseDups := by
  induction kinds using List.reverseRecOn with
  | nil => rfl
  | append_singleton kinds kind ih =>
    rw [List.foldl_concat, countKind, Entries.keys_insert, ih, eraseDups_concat]
    simp only [List.mem_eraseDups]

theorem getD_foldl_countKind (kinds : List String) (kind : String) :
    ((kinds.foldl countKind []).get? kind).getD 0 = kinds.count kind := by
  induction kinds using List.reverseRecOn with
  | nil => rfl
  | append_singleton kinds last ih =>
    rw [List.foldl_concat, getD_countKind, ih, List.count_append, List.count_singleton]
    simp only [beq_iff_eq]

/-- **A pass lists the first occurrences, each with the number of all its occurrences.** By
induction from the end of the list: one more element raises its own count or comes last with a count
of one. -/
theorem foldl_countKind (kinds : List String) :
    kinds.foldl countKind [] = kinds.eraseDups.map fun kind ↦ (kind, kinds.count kind) := by
  have distinct : (kinds.foldl countKind []).DistinctKeys := by
    rw [Entries.DistinctKeys, keys_foldl_countKind]
    exact (firstOccurrences_eraseDups kinds).nodup
  have hcount : ∀ entry ∈ kinds.foldl countKind [], (entry.1, kinds.count entry.1) = entry := by
    rintro ⟨kind, count⟩ hmem
    rw [← getD_foldl_countKind, Entries.get?_eq_some_of_mem distinct hmem, Option.getD_some]
  rw [← keys_foldl_countKind, Entries.keys, List.map_map]
  exact (List.map_id' _).symm.trans (List.map_congr_left fun entry hmem ↦ (hcount entry hmem).symm)

/-- A kind that no schema knows, and that comes again. -/
example : ["route", "event", "route"].foldl countKind [] = [("route", 2), ("event", 1)] := by decide

/-- A kind is listed with a number exactly if it occurs, and that often. -/
theorem mem_foldl_countKind_iff {kinds : List String} {kind : String} {count : Nat} :
    (kind, count) ∈ kinds.foldl countKind [] ↔ 0 < count ∧ count = kinds.count kind := by
  have hmem := (firstOccurrences_eraseDups kinds).mem_iff
  rw [foldl_countKind, List.mem_map]
  constructor
  · rintro ⟨other, hother, heq⟩
    obtain ⟨rfl, rfl⟩ := Prod.mk.inj heq
    exact ⟨List.count_pos_iff.2 ((hmem other).1 hother), rfl⟩
  · rintro ⟨hpos, rfl⟩
    exact ⟨kind, (hmem kind).2 (List.count_pos_iff.1 hpos), rfl⟩

/-! ### What the counts say -/

/-- The numbers of occurrences add up to the length. -/
theorem sum_count_eraseDups (kinds : List String) :
    (kinds.eraseDups.map fun kind ↦ kinds.count kind).sum = kinds.length := by
  have hperm : kinds.eraseDups.Perm kinds.dedup :=
    (List.perm_ext_iff_of_nodup (firstOccurrences_eraseDups kinds).nodup kinds.nodup_dedup).2
      fun kind ↦ ((firstOccurrences_eraseDups kinds).mem_iff kind).trans List.mem_dedup.symm
  rw [(hperm.map _).sum_eq, List.sum_map_count_dedup_eq_length]

/-- The blocks of a kind are those of all packages. -/
theorem count_kinds (document : Document) (kind : String) :
    (document.blocks.map (·.kind)).count kind =
      (document.packages.map fun package ↦ (package.blocksOfKind kind).length).sum := by
  rw [blocks, List.map_flatMap, List.count_flatMap]
  congr 1
  refine List.map_congr_left fun package _ ↦ ?_
  rw [Function.comp_apply, List.count_eq_countP, List.countP_map, List.countP_eq_length_filter]
  rfl

/-- **The statistics of a document count every block once.** They list the kinds of its blocks, each
once and in the order in which they first occur over all packages. A kind is listed with a number
exactly if the number is positive and that of the blocks of this kind, and the numbers add up to
that of all blocks of all packages. -/
theorem stats_count_every_block_once (document : Document) :
    FirstOccurrences (document.blocks.map (·.kind)) document.stats.blocks.keys ∧
      (∀ kind count, (kind, count) ∈ document.stats.blocks ↔ 0 < count ∧
        count = (document.packages.map fun package ↦ (package.blocksOfKind kind).length).sum) ∧
      (document.stats.blocks.map Prod.snd).sum =
        (document.packages.map fun package ↦ package.blocks.length).sum := by
  refine ⟨?_, fun kind count ↦ ?_, ?_⟩
  · rw [stats, keys_foldl_countKind]
    exact firstOccurrences_eraseDups _
  · rw [stats, mem_foldl_countKind_iff, count_kinds]
  · rw [stats, foldl_countKind, List.map_map]
    calc ((document.blocks.map (·.kind)).eraseDups.map _).sum
        = (document.blocks.map (·.kind)).length := sum_count_eraseDups _
      _ = (document.packages.map fun package ↦ package.blocks.length).sum := by
          rw [List.length_map, blocks, List.length_flatMap]

end AppManifest.Document
