import AppManifest.Kind
import AppManifest.Path
/-!
# Errors

Everything that can keep a document from being opened, validated or resolved. The wording, the
diagnostic code and the advice that go with an error are functions of it.
-/

namespace AppManifest

/-- A part of a source text, in bytes. -/
structure Span where
  offset : Nat
  length : Nat
  deriving DecidableEq, Repr

/-- What is known about a text that is not a document. -/
structure Malformed where
  message : String
  span : Option Span
  deriving DecidableEq, Repr

/-- Why a document could not be used. -/
inductive Error where
  /-- The file could not be read. -/
  | unreadable (path : String)
  /-- The text is not a document. -/
  | malformed (report : Malformed)
  /-- The entry package has no application block. -/
  | missingApplication
  /-- The entry package has several application blocks. -/
  | ambiguousApplication (names : List String)
  /-- A value does not have the shape that its place asks for. -/
  | schemaViolation (path : Path) (expected actual : String)
  /-- A closed object has a field that its schema does not declare. -/
  | unknownField (path : Path) (field : String)
  /-- No block has the name of a reference. -/
  | danglingReference (kind : Kind) (name : String)
  /-- Only blocks of other kinds have the name of a reference. -/
  | kindMismatch (name : String) (expected : Kind) (actual : String)
  deriving DecidableEq, Repr

namespace Error

/-- A name between single quotes. -/
def quote (name : String) : String := "'" ++ name ++ "'"

/-- The wording of an error. -/
def message : Error → String
  | .unreadable path => "failed to read " ++ quote path
  | .malformed report => "failed to parse IR document: " ++ report.message
  | .missingApplication => "no @application block"
  | .ambiguousApplication names =>
    "found " ++ toString names.length ++ " @application blocks: " ++
      ", ".intercalate (names.map quote)
  | .schemaViolation path expected actual =>
    "invalid value at " ++ quote path.text ++ ": expected " ++ expected ++ ", found " ++ actual
  | .unknownField path field => "unknown field " ++ quote field ++ " at " ++ quote path.text
  | .danglingReference kind name => "no " ++ kind.name ++ " block named " ++ quote name
  | .kindMismatch name expected actual =>
    "block " ++ quote name ++ " is a " ++ actual ++ ", expected a " ++ expected.name

/-- The path of the offending value, for errors of validation. -/
def path? : Error → Option Path
  | .schemaViolation path _ _ => some path
  | .unknownField path _ => some path
  | _ => none

/-- The diagnostic code. -/
def code? : Error → Option String
  | .unreadable _ => none
  | .malformed _ => some "faasit::parse_error"
  | .missingApplication => some "faasit::missing_application"
  | .ambiguousApplication _ => some "faasit::ambiguous_application"
  | .schemaViolation .. => some "faasit::schema_violation"
  | .unknownField .. => some "faasit::unknown_field"
  | .danglingReference .. => some "faasit::dangling_reference"
  | .kindMismatch .. => some "faasit::kind_mismatch"

/-- What to do about the error. -/
def help? : Error → Option String
  | .unreadable _ => some "pass the IR document with --ir <path>"
  | .missingApplication => some "declare exactly one `application` block in the entry package"
  | .ambiguousApplication _ => some "keep a single `application` block in the entry package"
  | .unknownField .. => some "this block kind does not accept fields outside its schema"
  | .danglingReference kind name =>
    some ("declare a `" ++ kind.name ++ "` block named " ++ quote name ++ " or fix the reference")
  | .malformed _ | .schemaViolation .. | .kindMismatch .. => none

end Error

end AppManifest
