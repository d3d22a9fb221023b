/-!
# Insertion-ordered entries

Objects, field bags and registries keep their keys in the order in which they were first
written. They are plain lists of pairs; `insert` keeps the place of a key that is already
present, so a later value replaces an earlier one without moving it. `keys_insert` states the
effect on the keys, and `nodup_keys_insert` says that distinct keys stay distinct.
-/

namespace AppManifest

/-- Values under string keys, in the order of the first writing of each key. -/
abbrev Entries (α : Type) := List (String × α)

namespace Entries

variable {α β : Type}

/-- The keys, in order. -/
def keys (entries : Entries α) : List String := entries.map Prod.fst

/-- The value under a key, if it has one. -/
def get? : Entries α → String → Option α
  | [], _ => none
  | (k, v) :: rest, key => if k = key then some v else get? rest key

/-- Whether a key is present. -/
def contains (entries : Entries α) (key : String) : Bool := (entries.get? key).isSome

/-- Write a value under a key: in place if the key is present, otherwise at the end. -/
def insert : Entries α → String → α → Entries α
  | [], key, value => [(key, value)]
  | (k, v) :: rest, key, value =>
    if k = key then (k, value) :: rest else (k, v) :: insert rest key value

/-- Write several entries one after the other. -/
def insertAll (entries : Entries α) (more : List (String × α)) : Entries α :=
  more.foldl (fun acc entry ↦ acc.insert entry.1 entry.2) entries

/-- Entries from pairs that may repeat a key: the last value wins, at the first position. -/
def ofList (pairs : List (String × α)) : Entries α := insertAll [] pairs

/-- Remove a key, if it is present. -/
def erase (entries : Entries α) (key : String) : Entries α :=
  entries.filter fun entry ↦ entry.1 ≠ key

/-- Write an entry into entries that are sorted by key. -/
def insertSorted (key : String) (value : α) : Entries α → Entries α
  | [] => [(key, value)]
  | (k, v) :: rest =>
    if key < k then (key, value) :: (k, v) :: rest else (k, v) :: insertSorted key value rest

/-- The entries in the order of the code points of their keys. -/
def sorted : Entries α → Entries α
  | [] => []
  | (key, value) :: rest => insertSorted key value (sorted rest)

/-- Apply a function to every value. -/
def mapValues (f : α → β) (entries : Entries α) : Entries β :=
  entries.map fun entry ↦ (entry.1, f entry.2)

/-- No key occurs twice. -/
def DistinctKeys (entries : Entries α) : Prop := entries.keys.Nodup

@[simp] theorem keys_nil : keys ([] : Entries α) = [] := rfl

@[simp] theorem keys_cons (k : String) (v : α) (rest : Entries α) :
    keys ((k, v) :: rest) = k :: keys rest := rfl

/-- Writing under a present key leaves the keys alone; a new key goes last. -/
theorem keys_insert (entries : Entries α) (key : String) (value : α) :
    (entries.insert key value).keys =
      if key ∈ entries.keys then entries.keys else entries.keys ++ [key] := by
  induction entries with
  | nil => rfl
  | cons entry rest ih =>
    obtain ⟨k, v⟩ := entry
    by_cases h : k = key
    · simp [insert, h]
    · have h' : key ≠ k := fun e ↦ h e.symm
      by_cases m : key ∈ keys rest <;> simp [insert, h, h', ih, m]

theorem nodup_keys_insert {entries : Entries α} (h : entries.DistinctKeys) (key : String)
    (value : α) : (entries.insert key value).DistinctKeys := by
  unfold DistinctKeys at *
  rw [keys_insert]
  split
  · exact h
  · next m => exact List.nodup_append.2 ⟨h, by simp, by
      intro a ha b hb; simp only [List.mem_singleton] at hb; subst hb; exact fun e ↦ m (e ▸ ha)⟩

/-- What is read after a write. -/
theorem get?_insert (entries : Entries α) (key other : String) (value : α) :
    (entries.insert key value).get? other =
      if key = other then some value else entries.get? other := by
  induction entries with
  | nil => by_cases h : key = other <;> simp [insert, get?, h]
  | cons entry rest ih =>
    obtain ⟨k, v⟩ := entry
    by_cases h : k = key <;> by_cases h' : key = other <;> by_cases h'' : k = other <;>
      simp_all [insert, get?]

/-- What is read after a removal. -/
theorem get?_erase (entries : Entries α) (key other : String) :
    (entries.erase key).get? other = if key = other then none else entries.get? other := by
  induction entries with
  | nil => simp [erase, get?]
  | cons entry rest ih =>
    obtain ⟨k, v⟩ := entry
    by_cases h : k = key <;> by_cases h' : key = other <;> by_cases h'' : k = other <;>
      simp_all [erase, get?]

end Entries

end AppManifest
