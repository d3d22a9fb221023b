import AppManifest.Proofs.Json.Tokens
/-!
# Scalars are read as they were written

A scalar that is written as JSON is read as that scalar (`reads_scalar`): the words, every string,
the integers that fit 64 bits, and the finite numbers.

The text of a finite number spells the shortest decimal, in one of two notations, by parts that
`number` puts together again (`NumberParts.Spells`). That this decimal is rounded to the number is
`Binary64.ofDecimal?_shortest`.
-/

namespace AppManifest.Json

open Binary64 (digitChars)

/-! ### Integers -/

/-- An integer that JSON keeps as one: from `-2 ^ 63` up to `2 ^ 64 - 1`. -/
def FitsInt (n : Int) : Prop := -0x8000000000000000 ≤ n ∧ n < 0x10000000000000000

/-- The parts of a natural number. -/
def wholeParts (n : Nat) : NumberParts := ⟨Decimal.digitsOf n, none, none⟩

theorem wellFormed_wholeParts (n : Nat) : (wholeParts n).WellFormed where
  whole := isWhole_digitsOf n
  fraction _ h := absurd h (by simp [wholeParts])
  power _ h := absurd h (by simp [wholeParts])

theorem chars_wholeParts (n : Nat) : (wholeParts n).chars = Nat.toDigits 10 n := by
  show digitChars (Decimal.digitsOf n) ++ ([] ++ []) = _
  rw [digitChars_digitsOf, List.append_nil, List.append_nil]

/-- The text of an integer is its sign and the digits of its amount. -/
theorem compactChars_int (n : Int) : compactChars (.int n) =
    Binary64.signChars (decide (n < 0)) ++ (wholeParts n.natAbs).chars := by
  rw [compactChars, intChars, chars_wholeParts, Binary64.signChars]
  by_cases hneg : n < 0 <;> simp [hneg]

/-- The digits of an integer with its sign are read as the integer, if it is one that fits. -/
theorem tree?_wholeParts {n : Int} (h : FitsInt n) :
    (wholeParts n.natAbs).tree? (decide (n < 0)) = some (.int n) := by
  obtain ⟨hlow, hhigh⟩ := h
  show wholeNumber? (decide (n < 0)) (Decimal.digitsOf n.natAbs) = _
  rw [wholeNumber?, Decimal.natOf_digitsOf]
  by_cases hneg : n < 0
  · rw [if_pos ⟨decide_eq_true hneg, by omega, by omega⟩]
    exact congrArg (some ∘ Json.int) (by omega)
  · have hsize : UInt64.size = 0x10000000000000000 := rfl
    rw [if_neg (fun h ↦ hneg (of_decide_eq_true h.1)),
      if_pos ⟨by simpa using hneg, by omega⟩]
    exact congrArg (some ∘ Json.int) (by omega)

/-! ### Decimals -/

namespace NumberParts

/-- Parts that spell a decimal, with a point or an exponent so that they are no integer. -/
structure Spells (parts : NumberParts) (x : Decimal) : Prop where
  wellFormed : parts.WellFormed
  marked : parts.fraction.isSome ∨ parts.power.isSome
  decimal : Decimal.ofParts parts.whole (parts.fraction.getD []) (parts.power.getD 0) = x

/-- Parts that spell a decimal are read as the float that it is rounded to. Only parts with a point
or an exponent spell one, since others are read as integers. -/
theorem Spells.tree?_eq {parts : NumberParts} {x : Decimal} (h : parts.Spells x) (negative : Bool) :
    parts.tree? negative = (Binary64.ofDecimal? negative x).map Json.float := by
  obtain ⟨whole, fraction, power⟩ := parts
  rw [← h.decimal, tree?]
  cases fraction with
  | some digits => rfl
  | none =>
    cases power with
    | some e => rfl
    | none => exact absurd h.marked (by simp)

end NumberParts

open NumberParts

theorem isWhole_zero : IsWhole [0] where
  nonempty := by simp
  bounded := by decide
  noLeadingZero h := (List.cons.inj h).2.symm

/-- Digits in front, the first of which is not zero. -/
theorem isWhole_of_head {digits : List Nat} (nonempty : digits ≠ []) (head : digits.head? ≠ some 0)
    (bounded : ∀ d ∈ digits, d < 10) : IsWhole digits where
  nonempty := nonempty
  bounded := bounded
  noLeadingZero h := absurd (congrArg List.head? h) head

/-- Digits with zeros around them spell a decimal. The three ways to write positional notation below
are cases of this one. -/
theorem spells_of_zeros {digits whole fraction : List Nat} {point : Int} {before after : Nat}
    (trimmed : Decimal.Trimmed digits) (bounded : ∀ d ∈ digits, d < 10) (isWhole : IsWhole whole)
    (nonempty : fraction ≠ [])
    (hall : whole ++ fraction = List.replicate before 0 ++ digits ++ List.replicate after 0)
    (hpoint : (whole.length : Int) - before = point) :
    Spells ⟨whole, some fraction, none⟩ ⟨digits, point⟩ where
  wellFormed := by
    refine ⟨isWhole, ?_, fun _ h ↦ absurd h (by simp)⟩
    rintro _ ⟨⟩
    refine ⟨nonempty, fun d hmem ↦ ?_⟩
    have hmem : d ∈ whole ++ fraction := List.mem_append_right _ hmem
    rw [hall, List.mem_append, List.mem_append] at hmem
    rcases hmem with (hzero | hdigit) | hzero
    · rw [List.eq_of_mem_replicate hzero]
      decide
    · exact bounded d hdigit
    · rw [List.eq_of_mem_replicate hzero]
      decide
  marked := Or.inl rfl
  decimal := by
    rw [← hpoint]
    exact (Decimal.ofParts_eq hall trimmed).trans (by simp)

section Positional

variable {digits : List Nat} {point : Int} (trimmed : Decimal.Trimmed digits)
  (bounded : ∀ d ∈ digits, d < 10)

include trimmed bounded

/-- The point stands in front of the digits, and zeros fill the places between. -/
theorem spells_of_point_nonpos (hpoint : point ≤ 0) :
    Spells ⟨[0], some (List.replicate point.natAbs 0 ++ digits), none⟩ ⟨digits, point⟩ := by
  have hall : [0] ++ (List.replicate point.natAbs 0 ++ digits) =
      List.replicate (point.natAbs + 1) 0 ++ digits ++ List.replicate 0 0 := by
    simp [List.replicate_succ]
  have hplace : (([0] : List Nat).length : Int) - (point.natAbs + 1 : Nat) = point := by
    rw [List.length_singleton]
    omega
  have hnonempty : List.replicate point.natAbs 0 ++ digits ≠ [] := by
    simp [trimmed.nonempty]
  exact spells_of_zeros trimmed bounded isWhole_zero hnonempty hall hplace

/-- The number is whole, and zeros fill the places up to the point. -/
theorem spells_of_length_le (hpoint : 0 < point) (hlong : digits.length ≤ point.toNat) :
    Spells ⟨digits ++ List.replicate (point.toNat - digits.length) 0, some [0], none⟩
      ⟨digits, point⟩ := by
  have hall : digits ++ List.replicate (point.toNat - digits.length) 0 ++ [0] =
      List.replicate 0 0 ++ digits ++ List.replicate (point.toNat - digits.length + 1) 0 := by
    simp [List.replicate_succ']
  have hplace : ((digits ++ List.replicate (point.toNat - digits.length) 0).length : Int) -
      (0 : Nat) = point := by
    rw [List.length_append, List.length_replicate]
    omega
  have hwhole : IsWhole (digits ++ List.replicate (point.toNat - digits.length) 0) := by
    refine isWhole_of_head (by simp [trimmed.nonempty]) ?_ fun d hmem ↦ ?_
    · rw [List.head?_append_of_ne_nil _ trimmed.nonempty]
      exact trimmed.head
    · rcases List.mem_append.1 hmem with hdigit | hzero
      · exact bounded d hdigit
      · rw [List.eq_of_mem_replicate hzero]
        decide
  exact spells_of_zeros trimmed bounded hwhole (by simp) hall hplace

/-- The point stands between two digits. -/
theorem spells_of_lt_length (hpoint : 0 < point) (hshort : point.toNat < digits.length) :
    Spells ⟨digits.take point.toNat, some (digits.drop point.toNat), none⟩ ⟨digits, point⟩ := by
  have hall : digits.take point.toNat ++ digits.drop point.toNat =
      List.replicate 0 0 ++ digits ++ List.replicate 0 0 := by
    simp
  have hplace : ((digits.take point.toNat).length : Int) - (0 : Nat) = point := by
    rw [List.length_take]
    omega
  have hwhole : IsWhole (digits.take point.toNat) := by
    refine isWhole_of_head ?_ ?_ fun d hmem ↦ bounded d (List.mem_of_mem_take hmem)
    · rw [← List.length_pos_iff, List.length_take]
      omega
    · rw [List.head?_take, if_neg (by omega)]
      exact trimmed.head
  have hnonempty : digits.drop point.toNat ≠ [] := by
    rw [← List.length_pos_iff, List.length_drop]
    omega
  exact spells_of_zeros trimmed bounded hwhole hnonempty hall hplace

end Positional

/-- **Positional notation spells the decimal.** Where the point stands makes three cases: in front
of the digits, between two of them, or behind them. -/
theorem exists_spells_positional {x : Decimal} (canonical : x.Canonical) :
    ∃ parts : NumberParts, parts.Spells x ∧ parts.chars = Binary64.positional true x := by
  cases canonical with
  | zero =>
    refine ⟨⟨[0], some [0], none⟩, ⟨⟨isWhole_zero, ?_, ?_⟩, Or.inl rfl, by decide⟩, rfl⟩
    · rintro _ ⟨⟩
      exact ⟨by simp, by decide⟩
    · exact fun _ h ↦ absurd h (by simp)
  | @digits digits point trimmed bounded =>
    have hempty : digits.isEmpty = false := by simpa using trimmed.nonempty
    have hlength : (digitChars digits).length = digits.length := List.length_map _
    have hzero : Nat.digitChar 0 = '0' := rfl
    unfold Binary64.positional Binary64.positionalDigits
    dsimp only
    rw [hempty, hlength]
    by_cases hpoint : point ≤ 0
    · refine ⟨_, spells_of_point_nonpos trimmed bounded hpoint, ?_⟩
      simp [hpoint, trimmed.nonempty, hzero, chars, fractionChars, powerChars, digitChars]
    have hpos : 0 < point := by omega
    by_cases hlong : digits.length ≤ point.toNat
    · refine ⟨_, spells_of_length_le trimmed bounded hpos hlong, ?_⟩
      simp [hpoint, hlong, hzero, chars, fractionChars, powerChars, digitChars]
    · refine ⟨_, spells_of_lt_length trimmed bounded hpos (by omega), ?_⟩
      simp [hpoint, hlong, chars, fractionChars, powerChars, digitChars]

/-- **Scientific notation spells the decimal**, if its exponent is one that is counted. -/
theorem exists_spells_scientific {x : Decimal} (canonical : x.Canonical)
    (nonempty : x.digits ≠ []) (h : (x.point - 1).natAbs ≤ exponentLimit) :
    ∃ parts : NumberParts, parts.Spells x ∧ parts.chars = Binary64.scientific x := by
  cases canonical with
  | zero => exact absurd rfl nonempty
  | @digits digits point trimmed bounded =>
    obtain ⟨d, rest, rfl⟩ := List.exists_cons_of_ne_nil nonempty
    obtain ⟨hd, hrest⟩ := List.forall_mem_cons.1 bounded
    have hwhole : IsWhole [d] :=
      isWhole_of_head (by simp) (by simpa using trimmed.head) (by simpa using hd)
    have hall : d :: rest = List.replicate 0 0 ++ (d :: rest) ++ List.replicate 0 0 := by simp
    have hplace : (([d] : List Nat).length : Int) - (0 : Nat) + (point - 1) = point := by
      rw [List.length_singleton]
      omega
    have hpower : ∀ e ∈ some (point - 1), e.natAbs ≤ exponentLimit := by
      rintro _ ⟨⟩
      exact h
    cases rest with
    | nil =>
      refine ⟨⟨[d], none, some (point - 1)⟩, ⟨⟨hwhole, fun _ h ↦ absurd h (by simp), hpower⟩,
        Or.inr rfl, ?_⟩, ?_⟩
      · exact (Decimal.ofParts_eq hall trimmed).trans (congrArg (Decimal.mk [d]) hplace)
      · rfl
    | cons d' rest =>
      refine ⟨⟨[d], some (d' :: rest), some (point - 1)⟩, ⟨⟨hwhole, ?_, hpower⟩,
        Or.inl rfl, ?_⟩, ?_⟩
      · rintro _ ⟨⟩
        exact ⟨by simp, hrest⟩
      · exact (Decimal.ofParts_eq hall trimmed).trans
          (congrArg (Decimal.mk (d :: d' :: rest)) hplace)
      · rfl

/-- The text of a finite number is its sign and parts that spell its shortest decimal. -/
theorem exists_spells_shortest (magnitude : Fin 0x7FF0000000000000) :
    ∃ parts : NumberParts, parts.Spells (Binary64.shortest magnitude) ∧ ∀ negative,
      floatChars (.finite negative magnitude) = Binary64.signChars negative ++ parts.chars := by
  have canonical := Binary64.canonical_shortest magnitude
  obtain ⟨hlow, hhigh⟩ := Binary64.point_shortest magnitude
  have htext : ∀ negative, floatChars (.finite negative magnitude) = Binary64.signChars negative ++
      if (Binary64.shortest magnitude).digits.isEmpty ||
        (-4 ≤ (Binary64.shortest magnitude).point && (Binary64.shortest magnitude).point ≤ 16)
      then Binary64.positional true (Binary64.shortest magnitude)
      else Binary64.scientific (Binary64.shortest magnitude) := fun negative ↦ by
    have hfinite : (Binary64.finite negative magnitude).isFinite = true := rfl
    rw [floatChars, if_pos hfinite, Binary64.scientificText, String.toList_ofList]
  by_cases hpositional : ((Binary64.shortest magnitude).digits.isEmpty ||
      (-4 ≤ (Binary64.shortest magnitude).point && (Binary64.shortest magnitude).point ≤ 16)) = true
  · obtain ⟨parts, hspells, hchars⟩ := exists_spells_positional canonical
    refine ⟨parts, hspells, fun negative ↦ ?_⟩
    rw [htext, if_pos hpositional, hchars]
  · have hnonempty : (Binary64.shortest magnitude).digits ≠ [] := by
      intro hnil
      exact hpositional (by simp [hnil])
    have hlimit : ((Binary64.shortest magnitude).point - 1).natAbs ≤ exponentLimit := by
      rw [exponentLimit]
      omega
    obtain ⟨parts, hspells, hchars⟩ := exists_spells_scientific canonical hnonempty hlimit
    refine ⟨parts, hspells, fun negative ↦ ?_⟩
    rw [htext, if_neg hpositional, hchars]

/-! ### Any scalar -/

/-- What may follow a value in a text: nothing, a comma, or a closing bracket. -/
def Ends (rest : List Char) : Prop := ∀ ch ∈ rest.head?, ch = ',' ∨ ch = ']' ∨ ch = '\x7d'

/-- What may follow a value in a list or an object ends a number. -/
theorem Ends.numberEnds {rest : List Char} (h : Ends rest) : NumberEnds rest := by
  intro ch hch
  rcases h ch hch with rfl | rfl | rfl
  · decide
  · decide
  · decide

/-- A digit fails the tests for all other scalars, which come first. -/
theorem digitChar_starts : ∀ d < 10, d.digitChar ≠ 'n' ∧ d.digitChar ≠ 't' ∧ d.digitChar ≠ 'f' ∧
    d.digitChar ≠ '-' ∧ isDigit d.digitChar = true := by decide

/-- A number without a sign starts with a digit. -/
theorem NumberParts.WellFormed.exists_chars_eq {parts : NumberParts} (h : parts.WellFormed) :
    ∃ d more, d < 10 ∧ parts.chars = d.digitChar :: more := by
  obtain ⟨d, more, hwhole⟩ := List.exists_cons_of_ne_nil h.whole.nonempty
  refine ⟨d, digitChars more ++ (fractionChars parts.fraction ++ powerChars parts.power),
    h.whole.bounded d (hwhole ▸ List.mem_cons_self), ?_⟩
  rw [chars, hwhole]
  rfl

/-- A number is recognised by its sign or its first digit. -/
theorem reads_signed {negative : Bool} {parts : NumberParts} (h : parts.WellFormed) {value : Json}
    (hvalue : parts.tree? negative = some value) :
    Reads Ends scalar? (Binary64.signChars negative ++ parts.chars) (some value) := by
  have hnumber : Reads Ends (number negative) parts.chars value :=
    (reads_number h hvalue).mono fun _ hrest ↦ hrest.numberEnds
  have hread := hnumber.map some
  cases negative with
  | true => exact hread.past (p := ['-']) fun _ _ ↦ ⟨_, rfl⟩
  | false =>
    obtain ⟨d, more, hd, hchars⟩ := h.exists_chars_eq
    obtain ⟨hn, ht, hf, hsign, hdigit⟩ := digitChar_starts d hd
    have heq : ∀ rest offset, scalar? ⟨parts.chars ++ rest, offset⟩ =
        (number false ⟨parts.chars ++ rest, offset⟩ >>= fun read ↦ .ok (some read.1, read.2)) := by
      intro rest offset
      rw [hchars, scalar?]
      dsimp only [List.cons_append]
      rw [if_neg hn, if_neg ht, if_neg hf, if_neg hsign, if_pos hdigit]
    intro rest offset hrest
    obtain ⟨behind, hbehind⟩ := hread rest offset hrest
    exact ⟨behind, (heq rest offset).trans hbehind⟩

mutual

/-- A tree that its text stands for: its integers fit 64 bits and its other numbers are finite. -/
def Printable : Json → Prop
  | .int n => FitsInt n
  | .float x => x.isFinite = true
  | .array items => itemsPrintable items
  | .object members => membersPrintable members
  | _ => True

/-- All trees of a list are printable. -/
def itemsPrintable : List Json → Prop
  | [] => True
  | item :: rest => Printable item ∧ itemsPrintable rest

/-- All trees under members are printable. -/
def membersPrintable : List (String × Json) → Prop
  | [] => True
  | (_, value) :: rest => Printable value ∧ membersPrintable rest

end

/-- Neither a list nor an object. -/
def isScalar : Json → Bool
  | .array _ | .object _ => false
  | _ => true

/-- A word is recognised by its first letter. -/
theorem reads_keyword {first : Char} {value : Json} (more : List Char)
    (h : ∀ rest offset, ∃ middle, scalar? ⟨first :: rest, offset⟩ =
      (word more ⟨rest, middle⟩ >>= fun read ↦ .ok (some value, read.2))) :
    Reads Ends scalar? (first :: more) (some value) := by
  have hword : Reads Ends (word more) more () := (reads_word more).mono fun _ _ ↦ trivial
  exact (hword.map fun _ ↦ some value).past (p := [first]) h

/-- **A scalar is read as it was written.** Numbers need to know what follows them; words and
strings do not. -/
theorem reads_scalar {tree : Json} (scalar : tree.isScalar = true) (printable : tree.Printable) :
    Reads Ends scalar? tree.compactChars (some tree) := by
  cases tree with
  | array items => exact absurd scalar (by simp [isScalar])
  | object members => exact absurd scalar (by simp [isScalar])
  | null => exact reads_keyword ['u', 'l', 'l'] fun _ _ ↦ ⟨_, rfl⟩
  | bool b =>
    cases b with
    | true => exact reads_keyword ['r', 'u', 'e'] fun _ _ ↦ ⟨_, rfl⟩
    | false => exact reads_keyword ['a', 'l', 's', 'e'] fun _ _ ↦ ⟨_, rfl⟩
  | int n =>
    rw [compactChars_int]
    exact reads_signed (wellFormed_wholeParts _) (tree?_wholeParts printable)
  | float x =>
    obtain ⟨negative, magnitude, rfl⟩ := Binary64.exists_eq_finite printable
    obtain ⟨parts, hspells, htext⟩ := exists_spells_shortest magnitude
    have hvalue : parts.tree? negative = some (.float (.finite negative magnitude)) := by
      rw [hspells.tree?_eq, Binary64.ofDecimal?_shortest]
      rfl
    rw [compactChars, htext]
    exact reads_signed hspells.wellFormed hvalue
  | string s =>
    have hread : Reads Ends stringBody _ s := (reads_stringBody s).mono fun _ _ ↦ trivial
    exact (hread.map fun s ↦ some (string s)).past (p := ['"']) fun _ _ ↦ ⟨_, rfl⟩

end AppManifest.Json
