import AppManifest.Proofs.Entity.Decoding
/-!
# Validating an entity again

An entity is written back as a field bag, and that bag is meant to be valid for the same entity. It
is, for every kind and wherever it is validated again, except in one situation. Applications,
providers and events hold an object whose keys are up to the author. If the members of that object
are those of a reference, the object is read as one, and the schema asks for an object.

An object gets there without being a reference itself: `{"$ref": "a", "$kind": inf}` is read as an
object, since its kind is no string, and the number is `null` once it has been written.

* `mistaken?` is the reference that the object of an entity is taken for.
* `revalidates_iff_not_mistaken` says that an entity is valid again exactly if there is none, and
  that it is the same entity then.

The first direction rests on the slots that settle, the second one on the single slot that does not.
-/

namespace AppManifest.Entity

/-- The members that the object with arbitrary keys of an entity is written as, if it has one. -/
def freeMembers? : (kind : Kind) → Entity kind → Option Json.Members
  | .application, app => (Application.options app).map Value.toMembers
  | .provider, provider => (Provider.invoke provider).map Provider.invokeMembers
  | .event, event => some (TypeExpr.toMembers (Event.data event))
  | .function, _ | .workflow, _ | .secret, _ | .trigger, _ => none

variable {kind : Kind} {raw valid : Fields} {path : Path} {entity : Entity kind}

/-- The reference that the object with arbitrary keys of an entity is taken for. -/
def mistaken? (entity : Entity kind) : Option BlockRef :=
  (freeMembers? kind entity).bind BlockRef.ofMembers?

/-- An entity that was read from a checked bag equals itself. -/
theorem same_self (keyed : raw.WellKeyed) (h : kind.schema.Completes raw valid)
    (read : ofFields? kind valid = some entity) : same kind entity entity = true := by
  cases kind with
  | application => exact Application.same_self keyed h read
  | function => exact Function.same_self keyed h read
  | workflow => exact Workflow.same_self keyed h read
  | provider => exact Provider.same_self keyed h read
  | event => exact Event.same_self keyed h read
  | secret => exact decide_eq_true rfl
  | trigger => exact decide_eq_true rfl

/-- **An entity that is mistaken for nothing is accepted again, and read as it was.** Its slots
settle, those with arbitrary keys because what they hold is not written like a reference. -/
theorem exists_accepts_of_not_mistaken (keyed : raw.WellKeyed) (h : kind.schema.Completes raw valid)
    (read : ofFields? kind valid = some entity) (hnone : mistaken? entity = none) :
    ∃ again, kind.schema.Accepts (toFields entity) again ∧
      ofFields? kind again = some entity := by
  cases kind with
  | application =>
    refine Application.layout.exists_accepts_of_read keyed h read
      (Application.settles_slots fun options hmem ↦ ?_)
    have hfree : freeMembers? .application entity = some (Value.toMembers options) :=
      congrArg (Option.map Value.toMembers) hmem
    rwa [mistaken?, hfree] at hnone
  | function =>
    exact Function.layout.exists_accepts_of_read keyed h read (Function.settles_slots entity)
  | workflow =>
    exact Workflow.layout.exists_accepts_of_read keyed h read (Workflow.settles_slots entity)
  | provider =>
    refine Provider.layout.exists_accepts_of_read keyed h read
      (Provider.settles_slots fun overrides hmem ↦ ?_)
    have hfree : freeMembers? .provider entity = some (Provider.invokeMembers overrides) :=
      congrArg (Option.map Provider.invokeMembers) hmem
    rwa [mistaken?, hfree] at hnone
  | event => exact Event.layout.exists_accepts_of_read keyed h read (Event.settles_slots hnone)
  | secret => exact Secret.layout.exists_accepts_of_read keyed h read (Secret.settles_slots entity)
  | trigger =>
    exact Trigger.layout.exists_accepts_of_read keyed h read (Trigger.settles_slots entity)

/-- **An entity that is accepted again is mistaken for nothing.** What is written like a reference
comes back as one, and the check of its field refuses it. -/
theorem not_mistaken_of_completes (keyed : raw.WellKeyed) (h : kind.schema.Completes raw valid)
    (read : ofFields? kind valid = some entity) {again : Fields}
    (accepted : kind.schema.Completes (toFields entity) again) : mistaken? entity = none := by
  cases kind with
  | application =>
    have hmem : Application.optionsSlot ∈ Application.layout.slots :=
      List.mem_of_getElem? (i := 6) rfl
    have hoptions (options : Fields) (h' : Application.options entity = some options) :
        BlockRef.ofMembers? (Value.toMembers options) = none :=
      Application.layout.ofMembers?_eq_none keyed h read hmem Shape.writesNormal_map_any
        (congrArg (Option.map fun options ↦ Json.object (Value.toMembers options)) h') accepted
    show ((Application.options entity).map Value.toMembers).bind BlockRef.ofMembers? = none
    cases h' : Application.options entity with
    | none => rfl
    | some options => exact hoptions options h'
  | provider =>
    have hmem : Provider.invokeSlot ∈ Provider.layout.slots := List.mem_of_getElem? (i := 4) rfl
    have hinvoke (overrides : Entries String) (h' : Provider.invoke entity = some overrides) :
        BlockRef.ofMembers? (Provider.invokeMembers overrides) = none :=
      Provider.layout.ofMembers?_eq_none keyed h read hmem Shape.writesNormal_map_string
        (congrArg (Option.map fun overrides ↦ Json.object (Provider.invokeMembers overrides)) h')
        accepted
    show ((Provider.invoke entity).map Provider.invokeMembers).bind BlockRef.ofMembers? = none
    cases h' : Provider.invoke entity with
    | none => rfl
    | some overrides => exact hinvoke overrides h'
  | event =>
    have hmem : Event.dataSlot ∈ Event.layout.slots := List.mem_of_getElem? (i := 1) rfl
    exact Event.layout.ofMembers?_eq_none keyed h read hmem Shape.writesNormal_structType rfl
      accepted
  | function => rfl
  | workflow => rfl
  | secret => rfl
  | trigger => rfl

/-- **An entity is valid again exactly if its object with arbitrary keys is not mistaken for a
reference**, and what is read again is that entity. This holds for every kind, for all raw fields
without repeated keys, and wherever the entity is validated again. -/
theorem revalidates_iff_not_mistaken (keyed : raw.WellKeyed)
    (h : parseFields kind raw path = .ok entity) (other : Path) :
    ((∃ again, parseFields kind (toFields entity) other = .ok again) ↔ mistaken? entity = none) ∧
      ∀ again, parseFields kind (toFields entity) other = .ok again →
        again = entity ∧ same kind again entity = true := by
  obtain ⟨valid, hvalid, hread⟩ := parseFields_eq_ok_iff.1 h
  have hcompletes : kind.schema.Completes raw valid := ⟨path, hvalid⟩
  have hnot : ∀ again, parseFields kind (toFields entity) other = .ok again →
      mistaken? entity = none := by
    intro again hagain
    obtain ⟨found, hfound, -⟩ := parseFields_eq_ok_iff.1 hagain
    exact not_mistaken_of_completes keyed hcompletes hread ⟨other, hfound⟩
  have hparse : mistaken? entity = none →
      parseFields kind (toFields entity) other = .ok entity := by
    intro hnone
    obtain ⟨found, haccepts, hagain⟩ :=
      exists_accepts_of_not_mistaken keyed hcompletes hread hnone
    exact parseFields_eq_ok_iff.2 ⟨found, haccepts other, hagain⟩
  refine ⟨⟨?_, fun hnone ↦ ⟨entity, hparse hnone⟩⟩, fun again hagain ↦ ?_⟩
  · rintro ⟨again, hagain⟩
    exact hnot again hagain
  · obtain rfl : entity = again :=
      Except.ok.inj ((hparse (hnot again hagain)).symm.trans hagain)
    exact ⟨rfl, same_self keyed hcompletes hread⟩

/-- Options under keys of their own are valid again. -/
theorem plain_options_revalidate :
    let raw : Fields := [("defaultProvider", .reference ⟨"p", none⟩),
      ("options", .object [("debug", .bool true)])]
    let app : Entity .application :=
      ⟨none, ⟨"p"⟩, [], [], none, [], some [("debug", .bool true)]⟩
    raw.WellKeyed ∧ parseFields .application raw Path.root = .ok app ∧ mistaken? app = none ∧
      ∃ again, parseFields .application (toFields app) Path.root = .ok again := by
  intro raw app
  have keyed : raw.WellKeyed := ⟨by decide, trivial, ⟨by decide, trivial, trivial⟩, trivial⟩
  have h : parseFields .application raw Path.root = .ok app := rfl
  have hnone : mistaken? app = none := rfl
  exact ⟨keyed, h, hnone, (revalidates_iff_not_mistaken keyed h Path.root).1.2 hnone⟩

/-- Options under the keys of a reference, with a number for a kind, are a map at first. Once the
number has been written as `null` they are refused as a reference. -/
theorem options_under_reference_keys_are_refused :
    let raw : Fields := [("defaultProvider", .reference ⟨"p", none⟩),
      ("options", .object [("$ref", .string "a"), ("$kind", .float (.infinity false))])]
    ∃ app : Entity .application, parseFields .application raw Path.root = .ok app ∧
      parseFields .application (toFields app) Path.root =
        .error (.schemaViolation (Path.root.key "options") "map of any value" "reference") := by
  intro raw
  exact ⟨⟨none, ⟨"p"⟩, [], [], none, [], some [("$ref", .string "a"), ("$kind", .null)]⟩, rfl, rfl⟩

end AppManifest.Entity
