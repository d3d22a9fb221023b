import AppManifest.Kind
import AppManifest.Path
/-!
# The text of a path behind another

The text of a path is put together from the left, and whether a key gets a dot depends on what was
put together so far. Behind a block this is no dependency any more: the path of a block starts with
a kind, which has a text, so that every further step has one text of its own (`stepChars`), and the
text of a longer path is the text of the shorter one with a suffix (`InBlock.text_extend`).
-/

namespace AppManifest.Path

variable {path : Path}

/-- The path with more steps behind it. -/
def extend (path : Path) (steps : List Segment) : Path := ⟨path.segments ++ steps⟩

@[simp] theorem extend_nil (path : Path) : path.extend [] = path := by
  rw [extend, List.append_nil]

/-- One step further is one more segment. A specification can be written with `extend` alone, and
these two lemmas lead to the steps that a check takes. -/
theorem key_eq_extend (path : Path) (name : String) : path.key name = path.extend [.key name] := rfl

theorem index_eq_extend (path : Path) (i : Nat) : path.index i = path.extend [.index i] := rfl

@[simp] theorem extend_key (path : Path) (name : String) (steps : List Segment) :
    (path.key name).extend steps = path.extend (.key name :: steps) := by
  rw [extend, extend, key, List.append_assoc, List.singleton_append]

@[simp] theorem extend_index (path : Path) (i : Nat) (steps : List Segment) :
    (path.index i).extend steps = path.extend (.index i :: steps) := by
  rw [extend, extend, index, List.append_assoc, List.singleton_append]

/-- A place in the fields of a block: it is reached from the block by keys and indices. -/
inductive InBlock : Path → Prop where
  | fields (kind : Kind) (name : String) : InBlock (ofBlock kind.name name)
  | key {path : Path} (h : InBlock path) (name : String) : InBlock (path.key name)
  | index {path : Path} (h : InBlock path) (i : Nat) : InBlock (path.index i)

theorem InBlock.exists_segments (h : InBlock path) :
    ∃ (kind : Kind) (steps : List Segment), path.segments = .key kind.name :: steps := by
  induction h with
  | fields kind name => exact ⟨kind, [.key name], rfl⟩
  | key _ name ih =>
    obtain ⟨kind, steps, heq⟩ := ih
    exact ⟨kind, steps ++ [.key name], by rw [Path.key, heq, List.cons_append]⟩
  | index _ i ih =>
    obtain ⟨kind, steps, heq⟩ := ih
    exact ⟨kind, steps ++ [.index i], by rw [Path.index, heq, List.cons_append]⟩

/-! ### Suffixes -/

/-- The text of a step that has a text in front of it. -/
def stepChars : Segment → List Char
  | .key name => '.' :: name.toList
  | .index i => '[' :: Nat.toDigits 10 i ++ [']']

/-- The text of steps that have a text in front of them. -/
def suffix (steps : List Segment) : String := String.ofList (steps.flatMap stepChars)

/-- The text of steps is empty, or it starts as the text of a key or an index does. -/
def IsSuffix (text : String) : Prop :=
  text = "" ∨ ∃ rest, text.toList = '.' :: rest ∨ text.toList = '[' :: rest

/-- The text of steps starts as the text of a key or an index does, or is empty. -/
theorem isSuffix_suffix (steps : List Segment) : IsSuffix (suffix steps) := by
  rcases steps with - | ⟨name | i, rest⟩
  · exact Or.inl rfl
  · refine Or.inr ⟨name.toList ++ rest.flatMap stepChars, Or.inl ?_⟩
    rw [suffix, String.toList_ofList]
    rfl
  · refine Or.inr ⟨Nat.toDigits 10 i ++ [']'] ++ rest.flatMap stepChars, Or.inr ?_⟩
    rw [suffix, String.toList_ofList]
    rfl

/-- Behind a text a step has one text of its own: a key gets its dot. -/
theorem segmentChars_eq_stepChars {before : List Char} (nonempty : before ≠ [])
    (step : Segment) : segmentChars before step = stepChars step := by
  cases step with
  | key name => exact if_neg (by simpa using nonempty)
  | index i => rfl

theorem charsAfter_eq_append {before : List Char} (nonempty : before ≠ [])
    (steps : List Segment) : charsAfter before steps = before ++ steps.flatMap stepChars := by
  induction steps generalizing before with
  | nil => exact (List.append_nil before).symm
  | cons step rest ih =>
    rw [charsAfter, segmentChars_eq_stepChars nonempty,
      ih (List.append_ne_nil_of_left_ne_nil nonempty _), List.flatMap_cons, List.append_assoc]

/-- The name of a kind is a text, so whatever follows it in a path stands behind a text. -/
theorem toList_name_ne_nil (kind : Kind) : kind.name.toList ≠ [] := by
  cases kind <;> decide

/-- The text of a path that starts with a kind is the name of the kind and a suffix. -/
theorem text_of_segments {kind : Kind} {steps : List Segment}
    (h : path.segments = .key kind.name :: steps) :
    path.text = kind.name ++ suffix steps := by
  have hchars : charsAfter [] path.segments = kind.name.toList ++ steps.flatMap stepChars := by
    rw [h, ← charsAfter_eq_append (toList_name_ne_nil kind)]
    rfl
  have hnonempty : path.segments.isEmpty = false := by rw [h]; rfl
  rw [text, hnonempty, hchars, String.ofList_append, String.ofList_toList]
  rfl

/-- **In a block, further steps put their own text behind the text of the path.** The suffix is the
same for all paths in blocks, which relocation of checks needs. -/
theorem InBlock.text_extend (h : InBlock path) (steps : List Segment) :
    (path.extend steps).text = path.text ++ suffix steps := by
  obtain ⟨kind, first, heq⟩ := h.exists_segments
  have hextend : (path.extend steps).segments = .key kind.name :: (first ++ steps) := by
    rw [extend, heq, List.cons_append]
  rw [text_of_segments hextend, text_of_segments heq, suffix, suffix, suffix, List.flatMap_append,
    String.ofList_append, String.append_assoc]

end AppManifest.Path
