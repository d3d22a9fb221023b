import AppManifest.Entries
import AppManifest.Proofs.Occurrences
/-!
# Reading insertion-ordered entries

What is read from entries that were written one after the other. Two facts carry the rest:

* `get?_ofList`: the value under a key is the one that was written last;
* `ofList_eq_self`: entries without a repeated key are stored as they stand.

Membership of a pair and reading under its key agree for distinct keys (`get?_eq_some_of_mem`),
which is where order stops to matter.
-/

namespace AppManifest.Entries

variable {α β : Type}

instance (entries : Entries α) : Decidable entries.DistinctKeys :=
  inferInstanceAs (Decidable (List.Nodup _))

/-! ### Reading -/

/-- What is read from appended entries is read from the first of them that has the key. -/
theorem get?_append (first second : Entries α) (key : String) :
    get? (first ++ second) key = (get? first key).or (get? second key) := by
  induction first with
  | nil => rfl
  | cons entry rest ih =>
    obtain ⟨k, v⟩ := entry
    by_cases h : k = key
    · simp [get?, h]
    · simpa [get?, h] using ih

theorem get?_eq_none_iff {entries : Entries α} {key : String} :
    entries.get? key = none ↔ key ∉ entries.keys := by
  induction entries with
  | nil => simp [get?]
  | cons entry rest ih =>
    obtain ⟨k, v⟩ := entry
    by_cases h : k = key
    · simp [get?, h]
    · simp [get?, h, ih, Ne.symm h]

theorem mem_of_get?_eq_some {entries : Entries α} {key : String} {value : α}
    (h : entries.get? key = some value) : (key, value) ∈ entries := by
  induction entries with
  | nil => exact absurd h (by simp [get?])
  | cons entry rest ih =>
    obtain ⟨k, v⟩ := entry
    by_cases hk : k = key
    · rw [get?, if_pos hk] at h
      exact List.mem_cons.2 (Or.inl (by rw [hk, Option.some.inj h]))
    · rw [get?, if_neg hk] at h
      exact List.mem_cons_of_mem _ (ih h)

theorem mem_keys_of_mem {entries : Entries α} {key : String} {value : α}
    (h : (key, value) ∈ entries) : key ∈ entries.keys :=
  List.mem_map.2 ⟨(key, value), h, rfl⟩

/-- **With distinct keys the pair that is there is the one that is read.** Without the condition an
earlier pair with the same key would hide it. -/
theorem get?_eq_some_of_mem {entries : Entries α} (distinct : entries.DistinctKeys)
    {key : String} {value : α} (h : (key, value) ∈ entries) : entries.get? key = some value := by
  induction entries with
  | nil => exact absurd h List.not_mem_nil
  | cons entry rest ih =>
    obtain ⟨k, v⟩ := entry
    obtain ⟨hk, hrest⟩ := List.nodup_cons.1 distinct
    rcases List.mem_cons.1 h with heq | hmem
    · obtain ⟨rfl, rfl⟩ := Prod.mk.inj heq
      simp [get?]
    · have hne : k ≠ key := fun e ↦ hk (e ▸ mem_keys_of_mem hmem)
      rw [get?, if_neg hne]
      exact ih hrest hmem

/-- With distinct keys it does not matter from which end the entries are read. -/
theorem get?_reverse {entries : Entries α} (distinct : entries.DistinctKeys) (key : String) :
    get? entries.reverse key = entries.get? key := by
  rcases h : entries.get? key with - | value
  · rw [get?_eq_none_iff] at h ⊢
    simpa [keys] using h
  · have hmem : (key, value) ∈ entries.reverse := List.mem_reverse.2 (mem_of_get?_eq_some h)
    refine get?_eq_some_of_mem ?_ hmem
    rw [DistinctKeys, keys, List.map_reverse]
    exact List.nodup_reverse.2 distinct

/-- With distinct keys the order of the entries does not matter for what is read under a key. -/
theorem get?_perm {first second : Entries α} (distinct : first.DistinctKeys)
    (h : first.Perm second) (key : String) : first.get? key = second.get? key := by
  have distinct' : second.DistinctKeys := (h.map Prod.fst).nodup_iff.1 distinct
  refine Option.ext fun value ↦ ⟨fun hvalue ↦ ?_, fun hvalue ↦ ?_⟩
  · exact get?_eq_some_of_mem distinct' (h.mem_iff.1 (mem_of_get?_eq_some hvalue))
  · exact get?_eq_some_of_mem distinct (h.mem_iff.2 (mem_of_get?_eq_some hvalue))

theorem contains_iff {entries : Entries α} {key : String} :
    entries.contains key = true ↔ key ∈ entries.keys := by
  rw [contains, Option.isSome_iff_ne_none, ne_eq, get?_eq_none_iff, not_not]

/-- What is read under a key is what stands there first: no entry in front of it has that key. -/
theorem get?_eq_some_iff {entries : Entries α} {key : String} {value : α} :
    entries.get? key = some value ↔
      ∃ before after, entries = before ++ (key, value) :: after ∧ key ∉ keys before := by
  constructor
  · intro h
    induction entries with
    | nil => exact absurd h (by simp [get?])
    | cons entry rest ih =>
      obtain ⟨k, v⟩ := entry
      by_cases hk : k = key
      · rw [get?, if_pos hk] at h
        exact ⟨[], rest, by rw [hk, Option.some.inj h, List.nil_append], List.not_mem_nil⟩
      · rw [get?, if_neg hk] at h
        obtain ⟨before, after, rfl, hbefore⟩ := ih h
        refine ⟨(k, v) :: before, after, rfl, ?_⟩
        rw [keys_cons, List.mem_cons, not_or]
        exact ⟨Ne.symm hk, hbefore⟩
  · rintro ⟨before, after, rfl, hbefore⟩
    rw [get?_append, get?_eq_none_iff.2 hbefore, get?, if_pos rfl]
    rfl

/-- Reading agrees with the lookup of the standard library. -/
theorem get?_eq_lookup (entries : Entries α) (key : String) :
    entries.get? key = List.lookup key entries := by
  induction entries with
  | nil => rfl
  | cons entry rest ih =>
    obtain ⟨k, v⟩ := entry
    by_cases h : k = key
    · simp [get?, h]
    · have h' : (key == k) = false := by simpa using Ne.symm h
      simp [get?, List.lookup_cons, h, h', ih]

/-- Changing values does not change under which keys something is read. -/
theorem get?_map (f : α → β) (entries : Entries α) (key : String) :
    get? (entries.map fun entry ↦ (entry.1, f entry.2)) key = (entries.get? key).map f := by
  induction entries with
  | nil => rfl
  | cons entry rest ih =>
    obtain ⟨k, v⟩ := entry
    by_cases h : k = key
    · simp [get?, h]
    · simpa [get?, h] using ih

/-- **Entries in the order of distinct names are what stands under each of the names.** Bags that a
schema has produced are of this kind, so they can be compared one name at a time. -/
theorem eq_flatMap_of_keys_sublist {names : List String} (distinct : names.Nodup)
    {entries : Entries α} (h : entries.keys.Sublist names) :
    entries = names.flatMap fun name ↦ ((entries.get? name).map fun v ↦ (name, v)).toList := by
  induction names generalizing entries with
  | nil => exact List.map_eq_nil_iff.1 (List.sublist_nil.1 h)
  | cons name rest ih =>
    obtain ⟨hname, hrest⟩ := List.nodup_cons.1 distinct
    cases entries with
    | nil => simp [get?]
    | cons entry others =>
      obtain ⟨k, v⟩ := entry
      by_cases hk : k = name
      · -- the entry is the one under the first name, and no other name asks for it
        subst hk
        have hothers : (keys others).Sublist rest := List.cons_sublist_cons.1 h
        have hget : ∀ other ∈ rest, get? ((k, v) :: others) other = get? others other := by
          intro other hmem
          have hne : k ≠ other := fun e ↦ hname (e ▸ hmem)
          rw [get?, if_neg hne]
        have htail := List.flatMap_congr fun other hmem ↦ congrArg
          (fun found : Option α ↦ (found.map fun v ↦ (other, v)).toList) (hget other hmem)
        rw [List.flatMap_cons, htail, ← ih hrest hothers]
        simp [get?]
      · have hkeys : (keys ((k, v) :: others)).Sublist rest := by
          rcases List.sublist_cons_iff.1 h with hkeys | ⟨tail, heq, -⟩
          · exact hkeys
          · exact absurd (List.cons.inj heq).1 hk
        have hnone : get? ((k, v) :: others) name = none :=
          get?_eq_none_iff.2 fun hmem ↦ hname (hkeys.subset hmem)
        rw [List.flatMap_cons, hnone, ← ih hrest hkeys]
        rfl

/-- Entries with the same distinct keys in the same order, and the same under each of them, are the
same. -/
theorem ext_get? {first second : Entries α} (keys_eq : first.keys = second.keys)
    (distinct : first.DistinctKeys) (h : ∀ key, first.get? key = second.get? key) :
    first = second := by
  have hget : first.get? = second.get? := funext h
  have hfirst := eq_flatMap_of_keys_sublist distinct (List.Sublist.refl first.keys)
  have hkeys : second.keys.Sublist first.keys := keys_eq ▸ List.Sublist.refl second.keys
  have hsecond := eq_flatMap_of_keys_sublist distinct hkeys
  exact hfirst.trans (hget ▸ hsecond.symm)

/-! ### Writing one after the other -/

theorem get?_insertAll (entries : Entries α) (more : List (String × α)) (key : String) :
    get? (entries.insertAll more) key = (get? more.reverse key).or (entries.get? key) := by
  induction more generalizing entries with
  | nil => rfl
  | cons entry rest ih =>
    obtain ⟨k, v⟩ := entry
    rw [show insertAll entries ((k, v) :: rest) = insertAll (entries.insert k v) rest from rfl, ih,
      List.reverse_cons, get?_append, get?_insert, Option.or_assoc]
    by_cases h : k = key <;> simp [get?, h]

/-- **The last value written under a key is the one that is read.** Reading takes the first pair
with the key, hence the reversed list on the right. -/
theorem get?_ofList (pairs : List (String × α)) (key : String) :
    (ofList pairs).get? key = get? pairs.reverse key := by
  rw [ofList, get?_insertAll]
  cases get? pairs.reverse key <;> rfl

/-- One more pair is one more insertion. Facts on stored entries are shown from the end of the list
with it. -/
theorem ofList_concat (pairs : List (String × α)) (key : String) (value : α) :
    ofList (pairs ++ [(key, value)]) = (ofList pairs).insert key value :=
  List.foldl_append ..

/-- **The keys that were written are read in the order of their first occurrences.** Writing under a
key again changes its value and leaves it where it is. -/
theorem keys_ofList (pairs : List (String × α)) :
    (ofList pairs).keys = (keys pairs).eraseDups := by
  induction pairs using List.reverseRecOn with
  | nil => rfl
  | append_singleton pairs pair ih =>
    have hkeys : keys (pairs ++ [pair]) = keys pairs ++ [pair.1] := List.map_append
    rw [ofList_concat, keys_insert, ih, hkeys, eraseDups_concat]
    simp only [List.mem_eraseDups]

/-- The value under a key is the one that was written last: no pair behind it has that key. -/
theorem get?_ofList_eq_some_iff {pairs : List (String × α)} {key : String} {value : α} :
    (ofList pairs).get? key = some value ↔
      ∃ before after, pairs = before ++ (key, value) :: after ∧ key ∉ keys after := by
  rw [get?_ofList, get?_eq_some_iff]
  constructor
  · rintro ⟨after, before, heq, hafter⟩
    refine ⟨before.reverse, after.reverse, ?_, by simpa [keys] using hafter⟩
    rw [← List.reverse_reverse pairs, heq]
    simp
  · rintro ⟨before, after, rfl, hafter⟩
    exact ⟨after.reverse, before.reverse, by simp, by simpa [keys] using hafter⟩

/-- What is read under a key is the last of the pairs with that key. -/
theorem get?_ofList_iff_isLast {pairs : List (String × α)} {key : String} {value : α} :
    (ofList pairs).get? key = some value ↔ IsLast (·.1 = key) pairs (key, value) := by
  have hafter (after : List (String × α)) :
      key ∉ keys after ↔ ∀ entry ∈ after, ¬ entry.1 = key := by
    simp only [keys, List.mem_map, not_exists, not_and]
  simp only [get?_ofList_eq_some_iff, IsLast, hafter, true_and]

theorem get?_ofList_eq_none_iff {pairs : List (String × α)} {key : String} :
    (ofList pairs).get? key = none ↔ key ∉ keys pairs := by
  rw [get?_eq_none_iff, keys_ofList, List.mem_eraseDups]

/-- Writing under a key that comes later leaves the entries before it alone. -/
theorem insert_append {first : Entries α} {key : String} (h : key ∉ first.keys)
    (second : Entries α) (value : α) :
    (first ++ second : Entries α).insert key value = first ++ second.insert key value := by
  induction first with
  | nil => rfl
  | cons entry rest ih =>
    obtain ⟨k, v⟩ := entry
    rw [keys_cons, List.mem_cons, not_or] at h
    rw [List.cons_append, insert, if_neg (Ne.symm h.1), ih h.2]
    rfl

/-- A new key is written behind all others. -/
theorem insert_eq_append {entries : Entries α} {key : String} (h : key ∉ entries.keys)
    (value : α) : entries.insert key value = entries ++ [(key, value)] := by
  have happend := insert_append h [] value
  rwa [List.append_nil] at happend

/-- Pairs under new keys are stored behind the others in their order. The condition is on all the
keys together, so that it is inherited along the list. -/
theorem insertAll_eq_append {entries : Entries α} {more : List (String × α)}
    (distinct : (entries ++ more : Entries α).DistinctKeys) :
    entries.insertAll more = entries ++ more := by
  induction more generalizing entries with
  | nil => exact (List.append_nil _).symm
  | cons entry rest ih =>
    obtain ⟨k, v⟩ := entry
    have hnew : k ∉ entries.keys := by
      have := (List.nodup_append.1 (by simpa [DistinctKeys, keys] using distinct)).2.2
      exact fun hmem ↦ this k hmem k (by simp) rfl
    rw [show insertAll entries ((k, v) :: rest) = insertAll (entries.insert k v) rest from rfl,
      insert_eq_append hnew, ih (by simpa using distinct), List.append_assoc]
    rfl

/-- **Pairs without a repeated key are stored as they stand.** It applies to every list that was
made from stored entries. -/
theorem ofList_eq_self {pairs : List (String × α)} (distinct : DistinctKeys pairs) :
    ofList pairs = pairs :=
  insertAll_eq_append (show DistinctKeys ([] ++ pairs) from distinct)

theorem insertAll_append {first : Entries α} (second more : Entries α)
    (h : ∀ key ∈ more.keys, key ∉ first.keys) :
    (first ++ second : Entries α).insertAll more = first ++ second.insertAll more := by
  induction more generalizing second with
  | nil => rfl
  | cons entry rest ih =>
    obtain ⟨hkey, hrest⟩ := List.forall_mem_cons.1 h
    show (insert (first ++ second) entry.1 entry.2).insertAll rest = _
    rw [insert_append hkey, ih _ hrest]
    rfl

/-- Entries under keys of their own are stored behind the others. -/
theorem ofList_append {first second : Entries α} (distinct : first.DistinctKeys)
    (h : ∀ key ∈ second.keys, key ∉ first.keys) :
    ofList (first ++ second) = first ++ ofList second := by
  calc ofList (first ++ second)
      = (ofList first).insertAll second := List.foldl_append ..
    _ = (first ++ []).insertAll second := by rw [ofList_eq_self distinct, List.append_nil]
    _ = first ++ ofList second := insertAll_append [] second h

theorem distinctKeys_insertAll {entries : Entries α} (more : List (String × α))
    (distinct : entries.DistinctKeys) : (entries.insertAll more).DistinctKeys := by
  induction more generalizing entries with
  | nil => exact distinct
  | cons entry rest ih => exact ih (nodup_keys_insert distinct entry.1 entry.2)

/-- **What was stored has no repeated key**, whatever was written. -/
theorem distinctKeys_ofList (pairs : List (String × α)) : (ofList pairs).DistinctKeys :=
  distinctKeys_insertAll pairs List.nodup_nil

/-- What is stored was written, so nothing is made up when a key is written again. -/
theorem mem_of_mem_ofList {pairs : List (String × α)} {key : String} {value : α}
    (h : (key, value) ∈ ofList pairs) : (key, value) ∈ pairs := by
  have hget := get?_eq_some_of_mem (distinctKeys_ofList pairs) h
  rw [get?_ofList] at hget
  exact List.mem_reverse.1 (mem_of_get?_eq_some hget)

/-! ### Entries under the same keys -/

/-- The same keys, in any order, with related values under them. -/
structure Rel (R : α → β → Prop) (as : Entries α) (bs : Entries β) : Prop where
  keys : as.keys.Perm bs.keys
  each : ∀ key a b, as.get? key = some a → bs.get? key = some b → R a b

namespace Rel

variable {γ δ : Type} {R : α → β → Prop} {as : Entries α} {bs : Entries β}

theorem nil : Rel R [] [] :=
  ⟨List.Perm.refl _, fun key a b ha _ ↦ absurd ha (by simp [get?])⟩

theorem cons (name : String) {a : α} {b : β} (hab : R a b) (h : Rel R as bs) :
    Rel R ((name, a) :: as) ((name, b) :: bs) := by
  refine ⟨h.keys.cons name, fun key c d hc hd ↦ ?_⟩
  rw [get?] at hc hd
  split at hc
  · next hname =>
    rw [if_pos hname] at hd
    rwa [← Option.some.inj hc, ← Option.some.inj hd]
  · next hname =>
    rw [if_neg hname] at hd
    exact h.each key c d hc hd

/-- Related entries are as many, since the keys of one are those of the other in some order. -/
theorem length_eq (h : Rel R as bs) : as.length = bs.length := by
  simpa [Entries.keys] using h.keys.length_eq

/-- Distinct keys are inherited, as related entries have the same keys. -/
theorem distinctKeys (h : Rel R as bs) (distinct : as.DistinctKeys) : bs.DistinctKeys :=
  h.keys.nodup_iff.1 distinct

/-- A key has related values in both or no value in either, so lookups in related entries succeed
together. -/
theorem rel_get? (h : Rel R as bs) (key : String) :
    Option.Rel R (as.get? key) (bs.get? key) := by
  cases ha : as.get? key with
  | none =>
    have hb : bs.get? key = none :=
      get?_eq_none_iff.2 (mt h.keys.mem_iff.2 (get?_eq_none_iff.1 ha))
    exact hb ▸ .none
  | some a =>
    cases hb : bs.get? key with
    | none =>
      have ha' : as.get? key = none :=
        get?_eq_none_iff.2 (mt h.keys.mem_iff.1 (get?_eq_none_iff.1 hb))
      exact absurd (ha.symm.trans ha') (by simp)
    | some b => exact .some (h.each key a b ha hb)

theorem exists_get? (h : Rel R as bs) {key : String} {a : α} (ha : as.get? key = some a) :
    ∃ b, bs.get? key = some b ∧ R a b := by
  generalize bs.get? key = b?, ha ▸ h.rel_get? key = hab
  cases hab with
  | some hab => exact ⟨_, rfl, hab⟩

theorem flip (h : Rel R as bs) : Rel (fun b a ↦ R a b) bs as :=
  ⟨h.keys.symm, fun key b a hb ha ↦ h.each key a b ha hb⟩

/-- Every entry of the second entries has its counterpart in the first. -/
theorem exists_of_mem (h : Rel R as bs) (distinct : as.DistinctKeys) {entry : String × β}
    (hmem : entry ∈ bs) : ∃ a, as.get? entry.1 = some a ∧ R a entry.2 :=
  h.flip.exists_get? (get?_eq_some_of_mem (h.distinctKeys distinct) hmem)

/-- Changing values does not change what stands under the same keys. -/
theorem map_iff {S : γ → δ → Prop} {f : α → γ} {g : β → δ} :
    Rel S (as.map fun entry ↦ (entry.1, f entry.2)) (bs.map fun entry ↦ (entry.1, g entry.2)) ↔
      Rel (fun a b ↦ S (f a) (g b)) as bs := by
  have hkeys {ε ζ : Type} (f : ε → ζ) (entries : Entries ε) :
      Entries.keys (entries.map fun entry ↦ (entry.1, f entry.2)) = entries.keys := by
    simp [Entries.keys, Function.comp_def]
  constructor
  · rintro ⟨keys, each⟩
    refine ⟨by rwa [hkeys, hkeys] at keys, fun key a b ha hb ↦ each key _ _ ?_ ?_⟩
    · rw [get?_map, ha, Option.map_some]
    · rw [get?_map, hb, Option.map_some]
  · rintro ⟨keys, each⟩
    refine ⟨by rwa [hkeys, hkeys], fun key c d hc hd ↦ ?_⟩
    rw [get?_map] at hc hd
    obtain ⟨a, ha, rfl⟩ := Option.map_eq_some_iff.1 hc
    obtain ⟨b, hb, rfl⟩ := Option.map_eq_some_iff.1 hd
    exact each key a b ha hb

/-- Entries under keys of their own may be put in another order. -/
theorem perm (h : Rel R as bs) (distinct : bs.DistinctKeys) {cs : Entries β} (hperm : bs.Perm cs) :
    Rel R as cs := by
  refine ⟨h.keys.trans (hperm.map _), fun key a c ha hc ↦ h.each key a c ha ?_⟩
  -- without repeated keys the entry of a key is the only one
  exact get?_eq_some_of_mem distinct (hperm.mem_iff.2 (mem_of_get?_eq_some hc))

end Rel

end AppManifest.Entries
