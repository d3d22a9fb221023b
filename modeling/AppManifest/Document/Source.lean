import AppManifest.Document.Text
import AppManifest.Error
import AppManifest.Host.FilePath
import AppManifest.Text.Utf8
import AppManifest.Toml.Reader
import AppManifest.Validation
/-!
# Documents in files

A document is written in one of two formats, which the name of its file tells. `Document.ofText`
reads a text in a format, `Source.ofContent` the content of a file; a file that cannot be read or
is no text is unreadable, and any other fault makes the text malformed.
-/

namespace AppManifest

/-- How the text of a document is written. -/
inductive Format where
  | json
  | toml
  deriving DecidableEq, Repr

namespace Format

/-- The word for a format. -/
def name : Format → String
  | .json => "json"
  | .toml => "toml"

/-- The format of the file at a path: TOML if its extension says so in any mixture of capital and
small letters, otherwise JSON. -/
def ofPath (path : String) : Format :=
  match Host.fileName? path >>= Host.extension? with
  | some extension => if extension.toLower = "toml" then .toml else .json
  | none => .json

end Format

/-- The error for a text that is not a document, at a fault that was found in it. -/
def Json.Fault.toError (fault : Json.Fault) (text : String) : Error :=
  let source := Text.bytes text
  .malformed {
    message := fault.message source
    span := do
      let (line, column) ← fault.place source
      let offset ← Text.offsetOf source line column
      some ⟨offset, 0⟩ }

/-- The error for a text that is not a document written as TOML. -/
def Toml.malformed : Error := .malformed ⟨"not a document in TOML", none⟩

/-- Read a text in a format as a document. -/
def Document.ofText (format : Format) (text : String) : Checked Document :=
  match format with
  | .json =>
    match Json.readDocument text with
    | .ok document => .ok document
    | .error fault => .error (fault.toError text)
  | .toml =>
    match Toml.ofText? text >>= Document.ofJson? with
    | some document => .ok document
    | none => .error Toml.malformed

/-- A document with the text that it was read from, and where that was. -/
structure Source where
  path : String
  text : String
  document : Document

/-- Read the content of the file at a path, or what was there instead of a file. -/
def Source.ofContent (path : String) (content : Option (List UInt8)) : Checked Source :=
  match content >>= Text.decode? with
  | none => .error (.unreadable path)
  | some text => do
    let document ← Document.ofText (Format.ofPath path) text
    .ok ⟨path, text, document⟩

end AppManifest
