import AppManifest.Entity.Application
import AppManifest.Entity.Event
import AppManifest.Entity.Secret
import AppManifest.Schema.Registry
import AppManifest.Validation
/-!
# Entities

For each kind there is a type of entities. A field bag that is valid for the schema of a kind is
read as an entity through its JSON form, and an entity is written back as a field bag through its
own.
-/

namespace AppManifest

/-- The entities of a kind. -/
@[reducible] def Entity : Kind → Type
  | .application => Application
  | .function => Function
  | .workflow => Workflow
  | .provider => Provider
  | .event => Event
  | .secret => Secret
  | .trigger => Trigger

namespace Entity

/-- The JSON members of an entity. -/
def toMembers : (kind : Kind) → Entity kind → Json.Members
  | .application, entity => Application.toMembers entity
  | .function, entity => Function.toMembers entity
  | .workflow, entity => Workflow.toMembers entity
  | .provider, entity => Provider.toMembers entity
  | .event, entity => Event.toMembers entity
  | .secret, entity => Secret.toMembers entity
  | .trigger, entity => Trigger.toMembers entity

/-- The entity that members stand for. -/
def ofMembers? : (kind : Kind) → Json.Members → Option (Entity kind)
  | .application => Application.ofMembers?
  | .function => Function.ofMembers?
  | .workflow => Workflow.ofMembers?
  | .provider => Provider.ofMembers?
  | .event => Event.ofMembers?
  | .secret => Secret.ofMembers?
  | .trigger => Trigger.ofMembers?

/-- Equality of entities. -/
def same : (kind : Kind) → Entity kind → Entity kind → Bool
  | .application, a, b => Application.same a b
  | .function, a, b => Function.same a b
  | .workflow, a, b => Workflow.same a b
  | .provider, a, b => Provider.same a b
  | .event, a, b => Event.same a b
  | .secret, a, b => decide (a = b)
  | .trigger, a, b => decide (a = b)

variable {kind : Kind}

/-- The JSON form of an entity. -/
def toJson (entity : Entity kind) : Json := .object (toMembers kind entity)

/-- An entity written back as a field bag. -/
def toFields (entity : Entity kind) : Fields :=
  Entries.ofList (Value.ofMembers (toMembers kind entity))

/-- The entity that a valid field bag stands for. -/
def ofFields? (kind : Kind) (fields : Fields) : Option (Entity kind) :=
  ofMembers? kind (Value.toMembers fields)

/-- Validate a field bag and read it as an entity. -/
def parseFields (kind : Kind) (raw : Fields) (path : Path) : Checked (Entity kind) := do
  let valid ← kind.schema.check raw path
  match ofFields? kind valid with
  | some entity => .ok entity
  | none => .error (.schemaViolation path kind.name "fields of another form")

/-- Validate a block and read it as an entity of a kind, which must be the kind of the block. -/
def parseBlock (kind : Kind) (block : Block) : Checked (Entity kind) :=
  if block.kind = kind.name then parseFields kind block.fields (Path.ofBlock kind.name block.name)
  else .error (.kindMismatch block.name kind block.kind)

end Entity

end AppManifest
