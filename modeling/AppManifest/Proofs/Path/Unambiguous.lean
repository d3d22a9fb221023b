import AppManifest.Proofs.Path
/-!
# Reported paths are unambiguous

A dot begins a key and a bracket an index. Where neither of the two is part of a name, the text of a
path in a block tells the path: its kind, the name of the block, and all further keys and indices
(`text_eq_text_iff`). Names may be empty, look like numbers, or hold closing brackets.

What is read off the text is the first step, up to the mark where the next one begins
(`step_eq_of_append_eq`). Each part ends where the first character comes that cannot belong to it:
a name at a mark, the digits of an index at the closing bracket (`append_inj_of_boundary`).
-/

namespace AppManifest.Path

/-! ### Names without marks -/

/-- A character that begins a step. -/
def isMark (c : Char) : Bool := c == '.' || c == '['

/-- A name that no step can seem to begin in. -/
def IsPlain (name : String) : Prop := '.' ∉ name.toList ∧ '[' ∉ name.toList

instance (name : String) : Decidable (IsPlain name) := inferInstanceAs (Decidable (_ ∧ _))

theorem IsPlain.isMark_eq_false {name : String} (plain : IsPlain name) {c : Char}
    (h : c ∈ name.toList) : isMark c = false := by
  have hdot : c ≠ '.' := fun e ↦ plain.1 (e ▸ h)
  have hbracket : c ≠ '[' := fun e ↦ plain.2 (e ▸ h)
  simp [isMark, hdot, hbracket]

/-- The step goes under a plain name, or it is an index. -/
def IsPlainStep : Segment → Prop
  | .key name => IsPlain name
  | .index _ => True

instance : (step : Segment) → Decidable (IsPlainStep step)
  | .key name => inferInstanceAs (Decidable (IsPlain name))
  | .index _ => inferInstanceAs (Decidable True)

theorem isPlain_name (kind : Kind) : IsPlain kind.name := by
  cases kind <;> decide

/-! ### The end of a part -/

/-- **A part of a text is told from the rest by where it can no longer go on.** Names and indices
are such parts: a name ends where a point or a bracket follows, an index where its bracket closes.
-/
theorem append_inj_of_boundary {p : Char → Bool} {xs ys xs' ys' : List Char}
    (hxs : ∀ c ∈ xs, p c = true) (hxs' : ∀ c ∈ xs', p c = true)
    (hys : ∀ c ∈ ys.head?, p c = false) (hys' : ∀ c ∈ ys'.head?, p c = false)
    (h : xs ++ ys = xs' ++ ys') : xs = xs' ∧ ys = ys' := by
  have htake {xs ys : List Char} (hxs : ∀ c ∈ xs, p c = true)
      (hys : ∀ c ∈ ys.head?, p c = false) : (xs ++ ys).takeWhile p = xs := by
    have hnil : ys.takeWhile p = [] := by
      rcases ys with - | ⟨c, ys⟩
      · rfl
      · exact List.takeWhile_cons_of_neg (by simp [hys c rfl])
    rw [List.takeWhile_append_of_pos hxs, hnil, List.append_nil]
  obtain rfl : xs = xs' := by rw [← htake hxs hys, h, htake hxs' hys']
  exact ⟨rfl, List.append_cancel_left h⟩

/-- What comes behind a name begins with a mark. -/
theorem isMark_of_mem_head? {steps : List Segment} {c : Char}
    (h : c ∈ (steps.flatMap stepChars).head?) : isMark c = true := by
  rcases steps with - | ⟨name | i, rest⟩
  · exact absurd h (by simp)
  · obtain rfl : '.' = c := Option.some.inj h
    rfl
  · obtain rfl : '[' = c := Option.some.inj h
    rfl

theorem name_eq_of_append_eq {name name' : String} (plain : IsPlain name) (plain' : IsPlain name')
    {steps steps' : List Segment}
    (h : name.toList ++ steps.flatMap stepChars = name'.toList ++ steps'.flatMap stepChars) :
    name = name' ∧ steps.flatMap stepChars = steps'.flatMap stepChars := by
  have hname {name : String} (plain : IsPlain name) :
      ∀ c ∈ name.toList, (!isMark c) = true := fun c hc ↦ by rw [plain.isMark_eq_false hc]; rfl
  have hrest (steps : List Segment) :
      ∀ c ∈ (steps.flatMap stepChars).head?, (!isMark c) = false := fun c hc ↦ by
    rw [isMark_of_mem_head? hc]; rfl
  obtain ⟨heq, htail⟩ := append_inj_of_boundary (hname plain) (hname plain') (hrest _) (hrest _) h
  exact ⟨String.toList_inj.1 heq, htail⟩

theorem index_eq_of_append_eq {i i' : Nat} {tail tail' : List Char}
    (h : Nat.toDigits 10 i ++ ']' :: tail = Nat.toDigits 10 i' ++ ']' :: tail') :
    i = i' ∧ tail = tail' := by
  have hdigit (j : Nat) : ∀ c ∈ Nat.toDigits 10 j, c.isDigit = true := fun c ↦
    Nat.isDigit_of_mem_toDigits (by decide) (by decide)
  have hend (tail : List Char) : ∀ c ∈ (']' :: tail).head?, c.isDigit = false := by
    rintro c ⟨⟩
    rfl
  obtain ⟨hdigits, htail⟩ :=
    append_inj_of_boundary (hdigit i) (hdigit i') (hend tail) (hend tail') h
  refine ⟨?_, (List.cons.inj htail).2⟩
  rw [← Nat.ofDigitChars_ten_toDigits (n := i), hdigits, Nat.ofDigitChars_ten_toDigits]

/-! ### From the text to the steps -/

/-- **The text tells the first step.** Its first character tells a key from an index, and the
boundary tells where it ends. -/
theorem step_eq_of_append_eq {step step' : Segment} (plain : IsPlainStep step)
    (plain' : IsPlainStep step') {steps steps' : List Segment}
    (h : stepChars step ++ steps.flatMap stepChars =
      stepChars step' ++ steps'.flatMap stepChars) :
    step = step' ∧ steps.flatMap stepChars = steps'.flatMap stepChars := by
  cases step with
  | key name =>
    cases step' with
    | key name' =>
      obtain ⟨hname, htail⟩ := name_eq_of_append_eq plain plain' (List.cons.inj h).2
      exact ⟨congrArg Segment.key hname, htail⟩
    | index i' => exact absurd (List.cons.inj h).1 (by decide)
  | index i =>
    cases step' with
    | key name' => exact absurd (List.cons.inj h).1 (by decide)
    | index i' =>
      rw [stepChars, stepChars, List.append_assoc, List.append_assoc] at h
      obtain ⟨hindex, htail⟩ := index_eq_of_append_eq (List.cons.inj h).2
      exact ⟨congrArg Segment.index hindex, htail⟩

theorem stepChars_ne_nil (step : Segment) : stepChars step ≠ [] := by
  cases step <;> exact List.cons_ne_nil _ _

/-- **The text tells all steps.** By induction along the steps, one at a time on both sides. -/
theorem steps_eq_of_flatMap_eq {steps steps' : List Segment}
    (plain : ∀ step ∈ steps, IsPlainStep step) (plain' : ∀ step ∈ steps', IsPlainStep step)
    (h : steps.flatMap stepChars = steps'.flatMap stepChars) : steps = steps' := by
  induction steps generalizing steps' with
  | nil =>
    rcases steps' with - | ⟨step', rest'⟩
    · rfl
    · exact absurd (List.append_eq_nil_iff.1 h.symm).1 (stepChars_ne_nil step')
  | cons step rest ih =>
    rcases steps' with - | ⟨step', rest'⟩
    · exact absurd (List.append_eq_nil_iff.1 h).1 (stepChars_ne_nil step)
    · obtain ⟨hstep, hrest⟩ := List.forall_mem_cons.1 plain
      obtain ⟨hstep', hrest'⟩ := List.forall_mem_cons.1 plain'
      obtain ⟨rfl, htail⟩ := step_eq_of_append_eq hstep hstep' h
      rw [ih hrest hrest' htail]

theorem toList_text_extend (kind : Kind) (name : String) (steps : List Segment) :
    ((ofBlock kind.name name).extend steps).text.toList =
      kind.name.toList ++ (Segment.key name :: steps).flatMap stepChars := by
  have hsegments : ((ofBlock kind.name name).extend steps).segments =
      .key kind.name :: .key name :: steps := rfl
  rw [text_of_segments hsegments, String.toList_append, suffix, String.toList_ofList]

/-- **The text of a path in a block identifies one position.** Let the name of the block and the
keys behind it be free of dots and opening brackets. Then two texts are the same exactly if the
kinds and the names of the blocks are, and the keys and indices behind them, in their order. -/
theorem text_eq_text_iff {kind kind' : Kind} {name name' : String} {steps steps' : List Segment}
    (plain : ∀ step ∈ Segment.key name :: steps, IsPlainStep step)
    (plain' : ∀ step ∈ Segment.key name' :: steps', IsPlainStep step) :
    ((ofBlock kind.name name).extend steps).text = ((ofBlock kind'.name name').extend steps').text ↔
      kind = kind' ∧ name = name' ∧ steps = steps' := by
  constructor
  · intro h
    have hchars := congrArg String.toList h
    rw [toList_text_extend, toList_text_extend] at hchars
    obtain ⟨hkind, htail⟩ :=
      name_eq_of_append_eq (isPlain_name kind) (isPlain_name kind') hchars
    obtain ⟨hname, hsteps⟩ := List.cons.inj (steps_eq_of_flatMap_eq plain plain' htail)
    exact ⟨Kind.name_injective hkind, Segment.key.inj hname, hsteps⟩
  · rintro ⟨rfl, rfl, rfl⟩
    rfl

/-- An empty key with indices behind it, in a block with a closing bracket in its name. -/
theorem split_index_is_another_position :
    let steps : List Segment := [.key "", .index 1, .index 2]
    let steps' : List Segment := [.key "", .index 12]
    (∀ step ∈ Segment.key "a]" :: steps, IsPlainStep step) ∧
      (∀ step ∈ Segment.key "a]" :: steps', IsPlainStep step) ∧
      ((ofBlock Kind.secret.name "a]").extend steps).text ≠
        ((ofBlock Kind.secret.name "a]").extend steps').text := by
  intro steps steps'
  have plain : ∀ step ∈ Segment.key "a]" :: steps, IsPlainStep step := by decide
  have plain' : ∀ step ∈ Segment.key "a]" :: steps', IsPlainStep step := by decide
  exact ⟨plain, plain', fun h ↦ absurd ((text_eq_text_iff plain plain').1 h).2.2 (by decide)⟩

/-- A dot in a key is not told from one more step. -/
example : ((ofBlock "event" "e").key "a.b").text = (((ofBlock "event" "e").key "a").key "b").text :=
  rfl

end AppManifest.Path
