import AppManifest.Binary64.Shortest
import AppManifest.Text.Position
import AppManifest.Text.Quoted
/-!
# What can be wrong with a JSON text

A fault is a cause and the byte offset at which reading stopped. The wording of a cause stands in
`Cause.message` alone; the line and the column are worked out from the text.
-/

namespace AppManifest.Json

/-- What was found where a value of another type was expected. -/
inductive Found where
  | null
  | bool (b : Bool)
  | int (n : Int)
  | float (x : Binary64)
  | string (s : String)
  | sequence
  | map

/-- How a found value is described. -/
def Found.describe : Found → String
  | .null => "null"
  | .bool b => "boolean `" ++ (if b then "true" else "false") ++ "`"
  | .int n => "integer `" ++ toString n ++ "`"
  | .float x => "floating point `" ++ x.scientificText ++ "`"
  | .string s => "string " ++ Text.quoted s
  | .sequence => "sequence"
  | .map => "map"

/-- Why reading stopped. -/
inductive Cause where
  | endInValue
  | endInList
  | endInObject
  | endInString
  | expectedValue
  | expectedIdent
  | expectedListCommaOrEnd
  | expectedObjectCommaOrEnd
  | expectedColon
  | trailingComma
  | trailingCharacters
  | keyNotString
  | controlCharacter
  | invalidEscape
  | endInHexEscape
  | loneSurrogate
  | invalidNumber
  | numberOutOfRange
  | nestedTooDeeply
  | invalidType (found : Found) (expected : String)
  | missingField (name : String)
  | duplicateField (name : String)
  | unknownField (name : String)
  | invalidLength (length : Nat) (expected : String)
  /-- A reference whose kind hint names another kind than its place asks for. -/
  | otherKind (expected found : String)

/-- The wording of a cause. -/
def Cause.message : Cause → String
  | .endInValue => "EOF while parsing a value"
  | .endInList => "EOF while parsing a list"
  | .endInObject => "EOF while parsing an object"
  | .endInString => "EOF while parsing a string"
  | .expectedValue => "expected value"
  | .expectedIdent => "expected ident"
  | .expectedListCommaOrEnd => "expected `,` or `]`"
  | .expectedObjectCommaOrEnd => "expected `,` or `\x7d`"
  | .expectedColon => "expected `:`"
  | .trailingComma => "trailing comma"
  | .trailingCharacters => "trailing characters"
  | .keyNotString => "key must be a string"
  | .controlCharacter => "control character (\\u0000-\\u001F) found while parsing a string"
  | .invalidEscape => "invalid escape"
  | .endInHexEscape => "unexpected end of hex escape"
  | .loneSurrogate => "lone leading surrogate in hex escape"
  | .invalidNumber => "invalid number"
  | .numberOutOfRange => "number out of range"
  | .nestedTooDeeply => "recursion limit exceeded"
  | .invalidType found expected =>
    "invalid type: " ++ found.describe ++ ", expected " ++ expected
  | .missingField name => "missing field `" ++ name ++ "`"
  | .duplicateField name => "duplicate field `" ++ name ++ "`"
  | .unknownField name => "unknown field `" ++ name ++ "`, expected `$ref` or `$kind`"
  | .invalidLength length expected =>
    "invalid length " ++ toString length ++ ", expected " ++ expected
  | .otherKind expected found =>
    "expected reference to " ++ expected ++ ", found reference to " ++ found

/-- A cause and the byte offset at which it was noticed, where that has a place. -/
structure Fault where
  cause : Cause
  offset : Option Nat

/-- The line and the column of a fault in its text. -/
def Fault.place (fault : Fault) (source : List UInt8) : Option (Nat × Nat) :=
  fault.offset.map (Text.lineColumn source)

/-- The message of a fault: the wording of its cause, then its line and column. -/
def Fault.message (fault : Fault) (source : List UInt8) : String :=
  match fault.place source with
  | none => fault.cause.message
  | some (line, column) =>
    fault.cause.message ++ " at line " ++ toString line ++ " column " ++ toString column

end AppManifest.Json
