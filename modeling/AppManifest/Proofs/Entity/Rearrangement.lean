import AppManifest.Proofs.Entity.Contents
import AppManifest.Proofs.Entity.Revalidation
import AppManifest.Proofs.Validation.Rearrangement
/-!
# Entities do not depend on the order of keys

A field bag and the same bag with its keys in another order are valid for the same kinds, and they
are read as equal entities (`Entity.parseFields_agree`). That both are valid or none is said of
the schema. That the entities are equal is read off what they hold (`Entity.Holds`): for each
relation between a value and a part that was read from it, the part is determined by the value up
to the order of its keys (`Value.Determines`), and a record is determined field by field.

Equality of entities ignores the order of overrides, of the fields of a type, and of free settings.
All other parts are the same.
-/

namespace AppManifest

/-- Values that differ in the order of keys only are read as equal parts. -/
def Value.Determines {α : Type} (S : Value → α → Prop) (E : α → α → Prop) : Prop :=
  ∀ ⦃v w : Value⦄ ⦃a b : α⦄, v.Rearranged w → v.DistinctKeys → S v a → S w b → E a b

/-! ### Type expressions -/

namespace TypeExpr

/-- Descriptions with equal types under the same names are equal. Equality of descriptions is
one-sided on the face of it, a length and a lookup for every name of the first; distinct names make
it enough. -/
theorem same_struct_of_rel {as bs : StructType} (distinct : Entries.DistinctKeys as)
    (h : Entries.Rel (fun a b ↦ same a b = true) as bs) :
    as.length = bs.length ∧ sameUnderKeys as bs = true :=
  ⟨h.length_eq, sameUnderKeys_of_forall fun _ hmem ↦
    h.exists_get? (Entries.get?_eq_some_of_mem distinct hmem)⟩

/-- The types of a description stand under the keys of the values that they were read from. A
description keeps the names and their order, so values and types correspond one to one. -/
theorem rel_of_ofMembers? {fields : Fields} {types : StructType}
    (h : ofMembers? (Value.toMembers fields) = some types) :
    Entries.Rel (fun value type ↦ ofJson? value.toJson = some type) fields types := by
  induction fields generalizing types with
  | nil =>
    obtain rfl := Option.some.inj h
    exact .nil
  | cons entry rest ih =>
    obtain ⟨name, value⟩ := entry
    rw [Value.toMembers, ofMembers?] at h
    cases htype : ofJson? value.toJson with
    | none => simp [htype] at h
    | some type =>
      cases htypes : ofMembers? (Value.toMembers rest) with
      | none => simp [htype, htypes] at h
      | some types =>
        rw [htype, htypes] at h
        obtain rfl := Option.some.inj h
        exact .cons name htype (ih htypes)

/-- Only a list of one type expression is read as a list type. Lists of any other length are
refused, also the empty one. -/
theorem of_ofJson?_list {items : List Value} {type : TypeExpr}
    (h : ofJson? (Value.list items).toJson = some type) :
    ∃ item element, items = [item] ∧ ofJson? item.toJson = some element ∧
      type = .list element := by
  match items with
  | [] => simp [Value.toJson, Value.toItems, ofJson?] at h
  | [item] =>
    rw [Value.toJson, Value.toItems, Value.toItems, ofJson?, Option.map_eq_some_iff] at h
    obtain ⟨element, helement, rfl⟩ := h
    exact ⟨item, element, rfl, helement, rfl⟩
  | _ :: _ :: _ => simp [Value.toJson, Value.toItems, ofJson?] at h

/-- Bags whose values are read as equal types are read as equal descriptions. What the types of
single values do is left as an assumption, which the induction below discharges. -/
theorem same_struct_of_rearranged {as bs : Fields} {ss ts : StructType}
    (distinct : Entries.DistinctKeys as)
    (h : Entries.Rel (fun a b ↦ ∀ s t, ofJson? a.toJson = some s → ofJson? b.toJson = some t →
      same s t = true) as bs)
    (hss : ofMembers? (Value.toMembers as) = some ss)
    (hts : ofMembers? (Value.toMembers bs) = some ts) :
    ss.length = ts.length ∧ sameUnderKeys ss ts = true := by
  have has := rel_of_ofMembers? hss
  have hbs := rel_of_ofMembers? hts
  refine same_struct_of_rel (has.distinctKeys distinct)
    ⟨has.keys.symm.trans (h.keys.trans hbs.keys), fun key s t hs ht ↦ ?_⟩
  obtain ⟨a, ha, hsa⟩ := has.flip.exists_get? hs
  obtain ⟨b, hb, htb⟩ := hbs.flip.exists_get? ht
  exact h.each key a b ha hb s t hsa htb

/-- **Type expressions that differ in the order of keys are equal.** The induction is on the
rearrangement: inside a list the element is another one of the same value, inside an object the
lookups of both sides meet under each name. -/
theorem same_of_rearranged {a b : Value} (h : a.Rearranged b) : a.DistinctKeys →
    ∀ s t, ofJson? a.toJson = some s → ofJson? b.toJson = some t → same s t = true := by
  induction h with
  | refl value =>
    intro distinct s t hs ht
    obtain rfl := Option.some.inj (hs.symm.trans ht)
    exact same_of_ofJson? hs distinct
  | list length each ih =>
    intro distinct s t hs ht
    obtain ⟨item, element, rfl, helement, rfl⟩ := of_ofJson?_list hs
    obtain ⟨item', element', rfl, helement', rfl⟩ := of_ofJson?_list ht
    exact ih 0 item item' rfl rfl distinct.1 element element' helement helement'
  | @object as bs keys each ih =>
    intro distinct s t hs ht
    have hrel : Fields.Rearranged as bs := ⟨keys, each⟩
    obtain ⟨hkeys, hvalues⟩ := Value.distinctKeys_object_iff.1 distinct
    rw [Value.toJson, ofJson?, Value.ofMembers?_toMembers] at hs ht
    -- both sides look like the same reference, or neither does
    rw [← hrel.lookalike?_eq distinct] at ht
    cases hl : Value.lookalike? (Value.normalizeFields as) with
    | some target =>
      rw [hl] at hs ht
      obtain rfl := Option.some.inj hs
      obtain rfl := Option.some.inj ht
      exact beq_self_eq_true target
    | none =>
      simp only [hl, Option.map_eq_some_iff] at hs ht
      obtain ⟨ss, hss, rfl⟩ := hs
      obtain ⟨ts, hts, rfl⟩ := ht
      have hsame := same_struct_of_rearranged hkeys ⟨keys, fun key a b ha hb ↦
        ih key a b ha hb (hvalues _ (Entries.mem_of_get?_eq_some ha))⟩ hss hts
      rw [same, hsame.1, hsame.2, beq_self_eq_true, Bool.and_self]

/-- Descriptions that differ in the order of keys are equal. This is the form in which the data of
an event is read. -/
theorem same_data_of_rearranged {as bs : Fields} {ss ts : StructType}
    (h : Fields.Rearranged as bs) (keyed : as.WellKeyed)
    (hss : ofMembers? (Value.toMembers as) = some ss)
    (hts : ofMembers? (Value.toMembers bs) = some ts) :
    ss.length = ts.length ∧ sameUnderKeys ss ts = true :=
  same_struct_of_rearranged keyed.1 ⟨h.keys, fun key a b ha hb ↦
    same_of_rearranged (h.each key a b ha hb) (keyed.get? ha)⟩ hss hts

end TypeExpr

/-! ### Parts that are determined -/

section Parts

variable {α : Type} {S : Value → α → Prop} {E : α → α → Prop}

namespace Value

/-- A string has only one arrangement, so the text that was read is the same. -/
theorem determines_text : Determines IsText Eq := by
  rintro v w a b h - rfl rfl
  exact (string.inj (h.eq rfl rfl)).symm

/-- So has an integer, and the number that stands for it is determined by its value as a natural
number. -/
theorem determines_nat {toNat : α → Nat} (injective : Function.Injective toNat) :
    Determines (fun value a ↦ value.IsNat (toNat a)) Eq := by
  rintro v w a b h - ⟨i, rfl, hi⟩ ⟨j, rfl, hj⟩
  obtain rfl := int.inj (h.eq rfl rfl)
  exact injective (Int.ofNat.inj (hi.symm.trans hj))

/-- A reference that was read keeps only the name, and the name is the same on both sides. -/
theorem determines_reference (kind : Kind) :
    Determines (RefersTo : Value → Reference kind → Prop) Eq := by
  rintro v w ⟨a⟩ ⟨b⟩ h - ⟨hint, rfl, -⟩ ⟨hint', rfl, -⟩
  obtain ⟨rfl, -⟩ := BlockRef.mk.inj (reference.inj (h.eq rfl rfl))
  rfl

/-- Lists are rearranged element by element, so the parts that were read from them correspond. -/
theorem determines_list (h : Determines S E) : Determines (IsList S) (List.Forall₂ E) := by
  rintro v w as bs hvw distinct ⟨vs, rfl, has⟩ ⟨ws, rfl, hbs⟩
  obtain ⟨ws, heq, hrel⟩ := hvw.of_list
  obtain rfl := list.inj heq
  have hvs := itemsDistinct_iff.1 distinct
  clear hvw heq distinct
  induction hrel generalizing as bs with
  | nil =>
    cases has
    cases hbs
    exact .nil
  | cons hitem _ ih =>
    cases has with
    | cons ha has =>
      cases hbs with
      | cons hb hbs =>
        obtain ⟨hfirst, hrest⟩ := List.forall_mem_cons.1 hvs
        exact .cons (h hitem hfirst ha hb) (ih has hbs hrest)

theorem determines_list_eq (h : Determines S Eq) : Determines (IsList S) Eq := by
  intro v w as bs hvw distinct has hbs
  simpa using determines_list h hvw distinct has hbs

/-- A nested record is determined up to `E` if every two arrangements of its fields are read as
records related by `E`. -/
theorem determines_object {H : Fields → α → Prop}
    (h : ∀ ⦃as bs : Fields⦄ ⦃a b : α⦄, Fields.Rearranged as bs → as.WellKeyed → H as a → H bs b →
      E a b) : Determines (IsObject H) E := by
  rintro v w a b hvw keyed ⟨as, rfl, ha⟩ ⟨bs, rfl, hb⟩
  obtain ⟨bs, heq, hrel⟩ := hvw.of_object
  obtain rfl := object.inj heq
  exact h hrel keyed ha hb

/-- Texts under keys are read in the order of the keys, so the results are equal as overrides and
need not be equal as lists. -/
theorem determines_textMap :
    Determines IsTextMap fun a b ↦ Provider.sameOverrides a b = true := by
  rintro v w as bs hvw distinct has rfl
  have hkeys : as.DistinctKeys := has.distinctKeys distinct
  subst has
  obtain ⟨fields, heq, hrel⟩ := hvw.of_object
  obtain rfl := object.inj heq
  have hrel : Entries.Rel (fun s t : String ↦ (string s).Rearranged (string t)) as bs :=
    Entries.Rel.map_iff.1 hrel
  rw [Provider.sameOverrides, hrel.length_eq, beq_self_eq_true, Bool.true_and, List.all_eq_true]
  intro entry hmem
  obtain ⟨t, ht, hsame⟩ := hrel.exists_get? (Entries.get?_eq_some_of_mem hkeys hmem)
  rw [ht, string.inj (hsame.eq rfl rfl)]
  exact beq_self_eq_true _

/-- The description of a structure is determined up to the order of its names. -/
theorem determines_struct : Determines
    (IsObject fun fields data ↦ TypeExpr.ofMembers? (toMembers fields) = some data)
    fun a b ↦ a.length = b.length ∧ TypeExpr.sameUnderKeys a b = true :=
  determines_object fun _ _ _ _ ↦ TypeExpr.same_data_of_rearranged

/-- Free settings are kept as the normal form of their fields, which changes with the order of keys
but not in what stands under them. -/
theorem determines_settings :
    Determines (IsObject fun fields settings ↦ settings = normalizeFields fields)
      fun a b ↦ Fields.same a b = true := by
  refine determines_object fun as bs a b h keyed ha hb ↦ ?_
  rw [ha, hb]
  exact h.same_normalizeFields keyed

theorem rel_cores? {v w : Value} (h : v.Rearranged w) : Option.Rel Eq v.cores? w.cores? := by
  have heq : v.cores? = w.cores? := by
    cases h <;> rfl
  rw [heq]
  cases w.cores? with
  | none => exact .none
  | some x => exact .some rfl

/-- What is kept of a value of any form may be an object, so here only equality of values can be
had. -/
theorem rel_kept? {v w : Value} (h : v.Rearranged w) (distinct : v.DistinctKeys) :
    Option.Rel (fun a b ↦ same a b = true) v.kept? w.kept? := by
  have hsame := h.same_normalize distinct
  have hnull : v.normalize.isNull = w.normalize.isNull := by
    cases hv : v.normalize <;> cases hw : w.normalize <;> simp_all [isNull, same]
  rw [kept?, kept?, hnull]
  cases w.normalize.isNull with
  | true => exact .none
  | false => exact .some hsame

end Value

/-! ### Fields that are determined -/

/-- Parts that are there on both sides or on none, and then equal, are equal as options. -/
theorem eq_of_rel_eq {a? b? : Option α} (h : Option.Rel Eq a? b?) : a? = b? := by
  cases h with
  | none => rfl
  | some h => rw [h]

namespace Fields.Rearranged

variable {as bs : Fields} {name : String}

/-- Parts that were read from a field are there on both sides or on none, and they are equal. The
three lemmas behind this one are the same for the ways in which a slot treats a field that is not
present. -/
theorem rel_parts (h : Fields.Rearranged as bs) (keyed : as.WellKeyed)
    (determines : Value.Determines S E) {a? b? : Option α}
    (ha : Option.Rel S (present? as name) a?) (hb : Option.Rel S (present? bs name) b?) :
    Option.Rel E a? b? := by
  have hgiven := h.rel_present? keyed name
  generalize present? as name = v?, present? bs name = w? at ha hb hgiven
  cases ha with
  | none =>
    cases hgiven
    cases hb
    exact .none
  | some ha =>
    cases hgiven with
    | some hvw =>
      cases hb with
      | some hb => exact .some (determines hvw.1 hvw.2 ha hb)

theorem eq_parts (h : Fields.Rearranged as bs) (keyed : as.WellKeyed)
    (determines : Value.Determines S Eq) {a? b? : Option α}
    (ha : Option.Rel S (present? as name) a?) (hb : Option.Rel S (present? bs name) b?) :
    a? = b? :=
  eq_of_rel_eq (h.rel_parts keyed determines ha hb)

/-- A part that must be there. It was read on both sides, so the field is present on both. -/
theorem required (h : Fields.Rearranged as bs) (keyed : as.WellKeyed)
    (determines : Value.Determines S E) {a b : α} (ha : Option.Rel S (present? as name) (some a))
    (hb : Option.Rel S (present? bs name) (some b)) : E a b := by
  cases h.rel_parts keyed determines ha hb with
  | some hab => exact hab

/-- A part that takes a default. Where the field is absent on one side it is on the other, and both
sides have the default. -/
theorem withDefault (h : Fields.Rearranged as bs) (keyed : as.WellKeyed)
    (determines : Value.Determines S E) {default : Value} {a b : α}
    (ha : S ((present? as name).getD default) a) (hb : S ((present? bs name).getD default) b)
    (distinct : default.DistinctKeys) : E a b := by
  have hgiven := h.rel_present? keyed name
  generalize present? as name = v?, present? bs name = w? at ha hb hgiven
  cases hgiven with
  | none => exact determines (.refl default) distinct ha hb
  | some hvw => exact determines hvw.1 hvw.2 ha hb

/-- A part that is a function of the field. This is the form that numbers of cores and values of any
form have. -/
theorem rel_bind (h : Fields.Rearranged as bs) (keyed : as.WellKeyed) {f : Value → Option α}
    (determines : ∀ {v w : Value}, v.Rearranged w → v.DistinctKeys → Option.Rel E (f v) (f w)) :
    Option.Rel E ((present? as name).bind f) ((present? bs name).bind f) := by
  generalize present? as name = v?, present? bs name = w?, h.rel_present? keyed name = hgiven
  cases hgiven with
  | none => exact .none
  | some hvw => exact determines hvw.1 hvw.2

end Fields.Rearranged

end Parts

/-! ### Records that are determined -/

section Records

variable {as bs : Fields}

open Value

/-- The numbers of the records are integers of three widths, and each of them is determined by its
value. -/
theorem determines_uint64 : Determines (fun value (n : UInt64) ↦ value.IsNat n.toNat) Eq :=
  determines_nat fun _ _ ↦ UInt64.toNat_inj.1

theorem determines_uint32 : Determines (fun value (n : UInt32) ↦ value.IsNat n.toNat) Eq :=
  determines_nat fun _ _ ↦ UInt32.toNat_inj.1

theorem determines_uint16 : Determines (fun value (n : UInt16) ↦ value.IsNat n.toNat) Eq :=
  determines_nat fun _ _ ↦ UInt16.toNat_inj.1

/-- Records of scalars, references and lists of these do not notice the order of keys at all: they
are read as equal records, field by field. Triggers are the first of them. -/
theorem Trigger.Holds.eq {a b : Trigger} (h : Fields.Rearranged as bs) (keyed : as.WellKeyed)
    (ha : a.Holds as) (hb : b.Holds bs) : a = b := by
  rw [Trigger.mk.injEq]
  exact ⟨h.required keyed determines_text ha.name hb.name,
    h.required keyed determines_text ha.kind hb.kind⟩

theorem Resource.Holds.eq {a b : Resource} (h : Fields.Rearranged as bs) (keyed : as.WellKeyed)
    (ha : a.Holds as) (hb : b.Holds bs) : a = b := by
  have hcpu : a.cpu = b.cpu := by
    rw [ha.cpu, hb.cpu]
    exact eq_of_rel_eq (h.rel_bind keyed fun hvw _ ↦ rel_cores? hvw)
  rw [Resource.mk.injEq]
  exact ⟨hcpu, h.eq_parts keyed determines_uint64 ha.memory hb.memory⟩

theorem PubSub.Holds.eq {a b : PubSub} (h : Fields.Rearranged as bs) (keyed : as.WellKeyed)
    (ha : a.Holds as) (hb : b.Holds bs) : a = b := by
  rw [PubSub.mk.injEq]
  exact h.required keyed (determines_list_eq (determines_reference .event)) ha.events hb.events

theorem Function.Holds.eq {a b : Function} (h : Fields.Rearranged as bs) (keyed : as.WellKeyed)
    (ha : a.Holds as) (hb : b.Holds bs) : a = b := by
  rw [Function.mk.injEq]
  exact ⟨h.required keyed determines_text ha.runtime hb.runtime,
    h.eq_parts keyed determines_text ha.image hb.image,
    h.eq_parts keyed determines_text ha.baseImage hb.baseImage,
    h.withDefault keyed determines_text ha.codeDir hb.codeDir trivial,
    h.eq_parts keyed determines_text ha.handler hb.handler,
    h.eq_parts keyed determines_uint32 ha.replicas hb.replicas,
    h.eq_parts keyed (determines_object fun _ _ _ _ ↦ Resource.Holds.eq) ha.resource hb.resource,
    h.withDefault keyed (determines_list_eq (determines_object fun _ _ _ _ ↦ Trigger.Holds.eq))
      ha.triggers hb.triggers trivial,
    h.eq_parts keyed (determines_object fun _ _ _ _ ↦ PubSub.Holds.eq) ha.pubsub hb.pubsub,
    h.eq_parts keyed determines_text ha.role hb.role⟩

theorem Workflow.Holds.eq {a b : Workflow} (h : Fields.Rearranged as bs) (keyed : as.WellKeyed)
    (ha : a.Holds as) (hb : b.Holds bs) : a = b := by
  rw [Workflow.mk.injEq]
  exact ⟨h.required keyed (determines_list_eq (determines_reference .function)) ha.functions
      hb.functions,
    h.required keyed determines_text ha.runtime hb.runtime,
    h.eq_parts keyed determines_text ha.image hb.image,
    h.eq_parts keyed determines_text ha.baseImage hb.baseImage,
    h.required keyed determines_text ha.codeDir hb.codeDir,
    h.eq_parts keyed determines_text ha.handler hb.handler,
    h.eq_parts keyed determines_uint32 ha.replicas hb.replicas,
    h.eq_parts keyed (determines_object fun _ _ _ _ ↦ Resource.Holds.eq) ha.resource hb.resource,
    h.eq_parts keyed determines_text ha.role hb.role⟩

/-- The nested records of a provider are determined part by part, like resources. -/
theorem Deployment.Holds.eq {a b : Deployment} (h : Fields.Rearranged as bs)
    (keyed : as.WellKeyed) (ha : a.Holds as) (hb : b.Holds bs) : a = b := by
  rw [Deployment.mk.injEq]
  exact ⟨h.eq_parts keyed determines_text ha.runtimeClass hb.runtimeClass,
    h.eq_parts keyed determines_text ha.startMode hb.startMode⟩

theorem RedisLocation.Holds.eq {a b : RedisLocation} (h : Fields.Rearranged as bs)
    (keyed : as.WellKeyed) (ha : a.Holds as) (hb : b.Holds bs) : a = b := by
  rw [RedisLocation.mk.injEq]
  exact ⟨h.eq_parts keyed determines_text ha.host hb.host,
    h.eq_parts keyed determines_uint16 ha.port hb.port⟩

theorem Secret.Holds.eq {a b : Secret} (h : Fields.Rearranged as bs) (keyed : as.WellKeyed)
    (ha : a.Holds as) (hb : b.Holds bs) : a = b := by
  rw [Secret.mk.injEq]
  exact ⟨h.required keyed determines_text ha.name hb.name,
    h.required keyed determines_text ha.value hb.value⟩

/-- The other records keep a value of any form, whose keys may come in another order. They are
compared by an equality of their own, which goes through options and lists in the obvious way. -/
theorem sameOption_of_rel {α : Type} {same : α → α → Bool} {a? b? : Option α}
    (h : Option.Rel (fun a b ↦ same a b = true) a? b?) : sameOption same a? b? = true := by
  cases h with
  | none => rfl
  | some h => exact h

theorem sameList_of_forall₂ {α : Type} {same : α → α → Bool} {as bs : List α}
    (h : List.Forall₂ (fun a b ↦ same a b = true) as bs) :
    Application.sameList same as bs = true := by
  induction h with
  | nil => rfl
  | cons hab _ ih => rw [Application.sameList, hab, ih, Bool.and_self]

/-- A provider keeps its overrides and its undeclared fields in the order in which they were
written, and equality of providers ignores it. -/
theorem Provider.Holds.same {a b : Provider} (h : Fields.Rearranged as bs) (keyed : as.WellKeyed)
    (ha : a.Holds as) (hb : b.Holds bs) : a.same b = true := by
  have hinvoke : sameOption sameOverrides a.invoke b.invoke = true :=
    sameOption_of_rel (h.rel_parts keyed determines_textMap ha.invoke hb.invoke)
  have hextra : Fields.same a.extra b.extra = true := by
    rw [ha.extra, hb.extra]
    exact (h.undeclared _).same_normalizeFields (Layout.wellKeyed_undeclared keyed)
  simp only [Provider.same, Bool.and_eq_true, beq_iff_eq, hinvoke, hextra, and_true]
  exact ⟨⟨⟨⟨⟨h.required keyed determines_text ha.kind hb.kind,
    h.eq_parts keyed determines_text ha.bucket hb.bucket⟩,
    h.eq_parts keyed determines_text ha.region hb.region⟩,
    h.eq_parts keyed (determines_object fun _ _ _ _ ↦ Deployment.Holds.eq) ha.deployment
      hb.deployment⟩,
    h.eq_parts keyed determines_text ha.registry hb.registry⟩,
    h.eq_parts keyed (determines_object fun _ _ _ _ ↦ RedisLocation.Holds.eq) ha.redis hb.redis⟩

theorem InputExample.Holds.same {a b : InputExample} (h : Fields.Rearranged as bs)
    (keyed : as.WellKeyed) (ha : a.Holds as) (hb : b.Holds bs) : a.same b = true := by
  rw [InputExample.same, ha.value, hb.value]
  exact sameOption_of_rel (h.rel_bind keyed rel_kept?)

/-- An application has sample inputs and options; everything else in it is equal outright. -/
theorem Application.Holds.same {a b : Application} (h : Fields.Rearranged as bs)
    (keyed : as.WellKeyed) (ha : a.Holds as) (hb : b.Holds bs) : a.same b = true := by
  have hdetermines : Determines (IsList (IsObject InputExample.Holds))
      (List.Forall₂ fun a b ↦ a.same b = true) :=
    determines_list (determines_object fun _ _ _ _ ↦ InputExample.Holds.same)
  have hsamples : sameList InputExample.same a.inputExamples b.inputExamples = true :=
    sameList_of_forall₂ (h.withDefault keyed hdetermines ha.inputExamples hb.inputExamples trivial)
  have hoptions : sameOption Fields.same a.options b.options = true :=
    sameOption_of_rel (h.rel_parts keyed determines_settings ha.options hb.options)
  simp only [Application.same, Bool.and_eq_true, beq_iff_eq, hsamples, hoptions, and_true]
  exact ⟨⟨⟨⟨h.eq_parts keyed determines_text ha.name hb.name,
    h.required keyed (determines_reference .provider) ha.defaultProvider hb.defaultProvider⟩,
    h.withDefault keyed (determines_list_eq (determines_reference .provider)) ha.providers
      hb.providers trivial⟩,
    h.withDefault keyed (determines_list_eq (determines_reference .function)) ha.functions
      hb.functions trivial⟩,
    h.eq_parts keyed (determines_reference .workflow) ha.workflow hb.workflow⟩

theorem Event.Holds.same {a b : Event} (h : Fields.Rearranged as bs) (keyed : as.WellKeyed)
    (ha : a.Holds as) (hb : b.Holds bs) : a.same b = true := by
  have hdata := h.required keyed determines_struct ha.data hb.data
  simp only [Event.same, Bool.and_eq_true, beq_iff_eq]
  exact ⟨⟨h.required keyed determines_text ha.eventType hb.eventType, hdata.1⟩, hdata.2⟩

end Records

namespace Entity

variable {kind : Kind} {as bs : Fields}

/-- **Fields that differ in the order of keys are read as equal entities.** The paths may differ,
since nothing that is read depends on them. -/
theorem same_of_rearranged {p q : Path} {x y : Entity kind} (h : Fields.Rearranged as bs)
    (keyed : as.WellKeyed) (hx : parseFields kind as p = .ok x)
    (hy : parseFields kind bs q = .ok y) : same kind x y = true := by
  have hself : same kind x x = true := by
    obtain ⟨valid, hvalid, hread⟩ := parseFields_eq_ok_iff.1 hx
    exact same_self keyed ⟨p, hvalid⟩ hread
  have holds : Holds kind as x := holds_of_parseFields keyed hx
  have holds' : Holds kind bs y := holds_of_parseFields (h.wellKeyed keyed) hy
  cases kind with
  | application => exact Application.Holds.same h keyed holds holds'
  | provider => exact Provider.Holds.same h keyed holds holds'
  | event => exact Event.Holds.same h keyed holds holds'
  | function => exact Function.Holds.eq h keyed holds holds' ▸ hself
  | workflow => exact Workflow.Holds.eq h keyed holds holds' ▸ hself
  | secret => exact Secret.Holds.eq h keyed holds holds' ▸ hself
  | trigger => exact Trigger.Holds.eq h keyed holds holds' ▸ hself

/-- **Reading fields does not depend on the order of their keys**: it fails for both or gives equal
entities, wherever they stand. -/
theorem parseFields_agree {p q : Path} (h : Fields.Rearranged as bs) (keyed : as.WellKeyed) :
    Checked.Agree (fun x y ↦ same kind x y = true) (parseFields kind as p)
      (parseFields kind bs q) := by
  refine Checked.agree_of ?_ fun x y hx hy ↦ same_of_rearranged h keyed hx hy
  rw [exists_parseFields_iff, exists_parseFields_iff]
  exact Schema.exists_check_iff_of_rearranged h keyed

end Entity

end AppManifest
