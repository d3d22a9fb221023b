import AppManifest.Entries
/-!
# Environments

An environment says how the variables of a process differ from those of its parent: some are set,
some are unset, and all others stay as they are. Only the last thing done to a variable counts,
so the order of different variables does not matter.
-/

namespace AppManifest

/-- Variables with what was last done to them: set to a value, or unset. -/
structure Environment where
  changes : Entries (Option String)
  deriving Repr

namespace Environment

/-- The environment that changes nothing. -/
def empty : Environment := ⟨[]⟩

/-- Set a variable to a value, or unset it. -/
def change (environment : Environment) (key : String) (value : Option String) : Environment :=
  ⟨environment.changes.insert key value⟩

/-- Set a variable. -/
def set (environment : Environment) (key value : String) : Environment :=
  environment.change key (some value)

/-- Unset a variable. -/
def unset (environment : Environment) (key : String) : Environment := environment.change key none

/-- The environment after changes in the given order. -/
def ofList (changes : List (String × Option String)) : Environment := ⟨Entries.ofList changes⟩

/-- The value of a variable that is set. -/
def get? (environment : Environment) (key : String) : Option String :=
  (environment.changes.get? key).join

/-- Whether a variable was set or unset. -/
def contains (environment : Environment) (key : String) : Bool :=
  environment.changes.contains key

/-- The number of variables that were set or unset. -/
def size (environment : Environment) : Nat := environment.changes.length

/-- Whether nothing was set or unset. -/
def isEmpty (environment : Environment) : Bool := environment.changes.isEmpty

/-- Equality: the same variables, in any order, each left in the same way. -/
def same (a b : Environment) : Bool :=
  a.size == b.size && a.changes.all fun entry ↦ b.changes.get? entry.1 == some entry.2

/-- Apply a change to the variables of a process. -/
def applyChange (bindings : Entries String) (change : String × Option String) : Entries String :=
  match change.2 with
  | some value => bindings.insert change.1 value
  | none => bindings.erase change.1

/-- The variables of a process, given those of its parent. -/
def apply (environment : Environment) (parent : Entries String) : Entries String :=
  environment.changes.foldl applyChange parent

end Environment

end AppManifest
