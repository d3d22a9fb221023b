import AppManifest.Validation
/-!
# Results of checks

A check that goes on after another one succeeds if both do (`Checked.bind_eq_ok`), and it fails if
one of them does (`Checked.bind_eq_error`), with the first failure (`Checked.failure?_bind`).
`Checked.failure?` is the error of a result on its own; it turns sequences of checks into searches
for the first failure.

Two results are compared in two ways. They agree if both fail or both have values that are related
(`Checked.Agree`), and one persists in the other if its value, where it has one, is the value of the
other (`Checked.Persists`). Sequences of checks respect both.
-/

namespace AppManifest

namespace Checked

variable {α β : Type}

/-- Two checks succeed one after the other if the first does, and the second does on what it gave.
-/
theorem bind_eq_ok {first : Checked α} {next : α → Checked β} {result : β} :
    (first >>= next) = .ok result ↔ ∃ a, first = .ok a ∧ next a = .ok result := by
  cases first with
  | ok a =>
    show next a = .ok result ↔ _
    simp
  | error e =>
    show (Except.error e : Checked β) = .ok result ↔ _
    simp

/-- Two checks fail one after the other if the first does, or if it succeeds and the second fails.
-/
theorem bind_eq_error {first : Checked α} {next : α → Checked β} {e : Error} :
    (first >>= next) = .error e ↔ first = .error e ∨ ∃ a, first = .ok a ∧ next a = .error e := by
  cases first with
  | ok a =>
    show next a = .error e ↔ _
    simp
  | error e' =>
    show (Except.error e' : Checked β) = .error e ↔ _
    simp

/-- The error of a result, if it is one. -/
def failure? : Checked α → Option Error
  | .ok _ => none
  | .error e => some e

theorem failure?_eq_none_iff {result : Checked α} :
    result.failure? = none ↔ ∃ a, result = .ok a := by
  cases result <;> simp [failure?]

theorem failure?_eq_some_iff {result : Checked α} {e : Error} :
    result.failure? = some e ↔ result = .error e := by
  cases result <;> simp [failure?]

/-- The failure of a sequence is the first one, if later steps fail whatever was computed before.
Then the sequence is a search for the first failure. -/
theorem failure?_bind {first : Checked α} {next : α → Checked β} {later : Option Error}
    (h : ∀ a, (next a).failure? = later) : (first >>= next).failure? = first.failure?.or later := by
  cases first with
  | ok a => exact h a
  | error e => rfl

/-- What is made of a result in the end does not fail. -/
theorem failure?_map (first : Checked α) (f : α → β) :
    (first >>= fun a ↦ (.ok (f a) : Checked β)).failure? = first.failure? := by
  cases first <;> rfl

/-- Two results agree: both are failures, of whatever kind, or both are values that are related. -/
inductive Agree (E : α → β → Prop) : Checked α → Checked β → Prop where
  | ok {a : α} {b : β} (h : E a b) : Agree E (.ok a) (.ok b)
  | error (e e' : Error) : Agree E (.error e) (.error e')

theorem agree_of {E : α → β → Prop} {first : Checked α} {second : Checked β}
    (succeeds : (∃ a, first = .ok a) ↔ ∃ b, second = .ok b)
    (related : ∀ a b, first = .ok a → second = .ok b → E a b) : Agree E first second := by
  cases first with
  | ok a =>
    obtain ⟨b, rfl⟩ := succeeds.1 ⟨a, rfl⟩
    exact .ok (related a b rfl rfl)
  | error e =>
    cases second with
    | ok b =>
      obtain ⟨a, ha⟩ := succeeds.2 ⟨b, rfl⟩
      exact absurd ha (by simp)
    | error e' => exact .error e e'

/-- Sequences of checks agree if their parts do. What comes later may use that the first check has
succeeded. -/
theorem Agree.bind {γ δ : Type} {E : α → β → Prop} {F : γ → δ → Prop} {first : Checked α}
    {second : Checked β} {next : α → Checked γ} {next' : β → Checked δ}
    (h : Agree E first second)
    (after : ∀ a b, first = .ok a → E a b → Agree F (next a) (next' b)) :
    Agree F (first >>= next) (second >>= next') := by
  cases h with
  | ok h => exact after _ _ rfl h
  | error e e' => exact .error e e'

/-- The value of the first result, if it has one, is the value of the second. -/
def Persists (first second : Checked α) : Prop := ∀ a, first = .ok a → second = .ok a

theorem Persists.refl (first : Checked α) : Persists first first := fun _ h ↦ h

theorem Persists.bind {first second : Checked α} {next next' : α → Checked β}
    (h : Persists first second) (after : ∀ a, Persists (next a) (next' a)) :
    Persists (first >>= next) (second >>= next') := by
  intro b hb
  obtain ⟨a, ha, hnext⟩ := bind_eq_ok.1 hb
  exact bind_eq_ok.2 ⟨a, h a ha, after a b hnext⟩

end Checked

end AppManifest
