import AppManifest.Json.Members
import AppManifest.Text.Quoted
/-!
# Secrets

A secret is a value under a name. Showing a secret does not show its value.
-/

namespace AppManifest

/-- A secret value under a name. -/
structure Secret where
  name : String
  value : String
  deriving DecidableEq

namespace Secret

/-- What stands for the value of a secret. -/
def redacted : String := "<redacted>"

/-- How a secret is shown, on one line. -/
def shown (secret : Secret) : String :=
  "Secret \x7b name: " ++ Text.quoted secret.name ++ ", value: " ++ Text.quoted redacted ++ " \x7d"

/-- How a secret is shown, on several lines. -/
def shownOnLines (secret : Secret) : String :=
  "Secret \x7b\n    name: " ++ Text.quoted secret.name ++ ",\n    value: " ++
    Text.quoted redacted ++ ",\n\x7d"

/-- The JSON members of a secret. -/
def toMembers (secret : Secret) : Json.Members :=
  [("name", .string secret.name), ("value", .string secret.value)]

/-- The secret that members stand for. -/
def ofMembers? (members : Json.Members) : Option Secret := do
  let name ← members.required "name" Json.string?
  let value ← members.required "value" Json.string?
  some ⟨name, value⟩

end Secret

end AppManifest
