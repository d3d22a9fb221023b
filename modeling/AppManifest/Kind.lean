/-!
# Block kinds

The kinds of block that have a schema. A block may carry any other text as its kind; such a block
is kept and counted but is never the target of a reference.
-/

namespace AppManifest

/-- A kind of block that has a schema. -/
inductive Kind where
  | application
  | function
  | workflow
  | provider
  | event
  | secret
  | trigger
  deriving DecidableEq, Repr

namespace Kind

/-- Every kind, in order. -/
def all : List Kind := [application, function, workflow, provider, event, secret, trigger]

/-- The text that stands for a kind in documents. -/
def name : Kind → String
  | application => "application"
  | function => "function"
  | workflow => "workflow"
  | provider => "provider"
  | event => "event"
  | secret => "secret"
  | trigger => "trigger"

/-- The kind that a text stands for. -/
def ofName? (text : String) : Option Kind := all.find? (·.name == text)

/-- What is said of a text that stands for no kind. -/
def unknownMessage (text : String) : String := "unknown block kind '" ++ text ++ "'"

/-- The place of a kind in the order. -/
def index (kind : Kind) : Nat := all.idxOf kind

/-- The kinds ordered before a kind. -/
def below (kind : Kind) : List Kind := all.filter fun other ↦ other.index < kind.index

theorem ofName?_name (kind : Kind) : ofName? kind.name = some kind := by
  cases kind <;> rfl

theorem name_injective {a b : Kind} (h : a.name = b.name) : a = b := by
  have := congrArg ofName? h
  rwa [ofName?_name, ofName?_name, Option.some.injEq] at this

end Kind

end AppManifest
