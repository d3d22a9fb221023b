import AppManifest.Json
/-!
# Diagnostics

A finding about a document: how severe it is, which lint found it, what it says, and where.
-/

namespace AppManifest

/-- How severe a finding is. -/
inductive Severity where
  /-- The document cannot be deployed as it is. -/
  | error
  /-- The document can be deployed but is probably not what was meant. -/
  | warning
  | info
  deriving DecidableEq, Repr

/-- The word for a severity. -/
def Severity.name : Severity → String
  | .error => "error"
  | .warning => "warning"
  | .info => "info"

/-- The severity that a word stands for. -/
def Severity.ofName? (word : String) : Option Severity :=
  [error, warning, info].find? (·.name == word)

/-- A finding. -/
structure Diagnostic where
  severity : Severity
  lint : String
  message : String
  location : Option String
  deriving DecidableEq, Repr

namespace Diagnostic

/-- Whether the finding is an error. -/
def isError (diagnostic : Diagnostic) : Bool := diagnostic.severity = .error

/-- Whether the finding is a warning. -/
def isWarning (diagnostic : Diagnostic) : Bool := diagnostic.severity = .warning

/-- The text of a finding on one line. -/
def text (diagnostic : Diagnostic) : String :=
  diagnostic.severity.name ++ "[" ++ diagnostic.lint ++ "]: " ++ diagnostic.message ++
    match diagnostic.location with
    | some location => " (at " ++ location ++ ")"
    | none => ""

/-- The JSON form of a finding; an absent location is `null`. -/
def toJson (diagnostic : Diagnostic) : Json :=
  .object [("severity", .string diagnostic.severity.name), ("lint", .string diagnostic.lint),
    ("message", .string diagnostic.message),
    ("location", (diagnostic.location.map Json.string).getD .null)]

end Diagnostic

end AppManifest
