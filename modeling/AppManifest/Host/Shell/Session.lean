import AppManifest.Host.FileTree
import AppManifest.Host.Shell.Script
import AppManifest.Text.Utf8
/-!
# The state of a shell

A session holds the files, the variables and the arguments that a script sees, where its output
goes, and the status of its last command. Words are expanded into fields in a session.
-/

namespace AppManifest.Host.Shell

/-- Where output goes. -/
inductive Sink where
  /-- Onto a stream of the session. -/
  | stream (index : Nat)
  /-- To the end of a file. -/
  | file (place : Place)
  | nowhere

/-- How a shell came to its end. -/
inductive Ending where
  | exited
  | killed
  deriving DecidableEq

/-- What a running script sees. -/
structure Session where
  files : Node
  /-- The current directory. -/
  directory : Place
  bindings : Entries String
  /-- The variables that programs see. -/
  exported : List String
  /-- The name under which the shell was started. -/
  name : String
  arguments : List String
  /-- The status of the last command. -/
  status : Nat
  /-- Set when the shell has come to its end. -/
  ending : Option Ending
  /-- What is left to be read. -/
  input : List UInt8
  /-- What has been written: to standard output, to standard error, and to open pipes. -/
  streams : List (List UInt8)
  standardOutput : Sink
  standardError : Sink

namespace Session

/-- Change the element of a list at an index. -/
def modifyAt {α : Type} (f : α → α) : Nat → List α → List α
  | _, [] => []
  | 0, a :: rest => f a :: rest
  | i + 1, a :: rest => a :: modifyAt f i rest

/-- Write bytes to a sink. -/
def writeTo (session : Session) (sink : Sink) (bytes : List UInt8) : Session :=
  match sink with
  | .stream i => { session with streams := modifyAt (· ++ bytes) i session.streams }
  | .file place =>
    let old := (session.files.content? place).getD []
    { session with
      files := (session.files.put? place (.file (old ++ bytes))).getD session.files }
  | .nowhere => session

/-- Write bytes to standard output. -/
def write (session : Session) (bytes : List UInt8) : Session :=
  session.writeTo session.standardOutput bytes

/-- Write a text to standard output. -/
def print (session : Session) (text : String) : Session := session.write (Text.bytes text)

/-- The session with a status. -/
def withStatus (session : Session) (status : Nat) : Session := { session with status }

/-- Report a problem as a line on standard error, with a status. -/
def complain (session : Session) (message : String) (status : Nat) : Session :=
  (session.writeTo session.standardError (Text.bytes (message ++ "\n"))).withStatus status

/-- How the shell itself begins a complaint. -/
def shellMessage (session : Session) (message : String) : String :=
  session.name ++ ": 1: " ++ message

/-- The variables that programs see, with their values. -/
def environment (session : Session) : Entries String :=
  session.bindings.filter fun entry ↦ session.exported.contains entry.1

/-! ### Expansion -/

/-- The value of a parameter that stands for a single text. -/
def value? (session : Session) (name : String) : Option String :=
  match name with
  | "?" => some (toString session.status)
  | "#" => some (toString session.arguments.length)
  | "$" => some "1"
  | "!" => none
  | "0" => some session.name
  | "*" | "@" =>
    if session.arguments.isEmpty then none else some (" ".intercalate session.arguments)
  | _ =>
    match name.toNat? with
    | some n => session.arguments[n - 1]?
    | none => session.bindings.get? name

/-- Fields while they are made: those that are done, and the one that has begun. -/
structure Fields where
  finished : List (List Char)
  current : Option (List Char)

/-- Add text that is not split. -/
def Fields.add (fields : Fields) (text : List Char) : Fields :=
  { fields with current := some (fields.current.getD [] ++ text) }

/-- End the field that has begun. -/
def Fields.close (fields : Fields) : Fields :=
  match fields.current with
  | some text => ⟨fields.finished ++ [text], none⟩
  | none => fields

/-- Add text that blanks split into fields. -/
def Fields.addSplit (fields : Fields) (text : List Char) : Fields :=
  text.foldl
    (fun fields c ↦ if c = ' ' || c = '\t' || c = '\n' then fields.close else fields.add [c])
    fields

/-- Add a text, split unless it is quoted. -/
def Fields.addText (fields : Fields) (text : List Char) (quoted : Bool) : Fields :=
  if quoted then fields.add text else fields.addSplit text

/-- Add all arguments, each as a field of its own. -/
def Fields.addEach (fields : Fields) : List String → Fields
  | [] => fields
  | [last] => fields.add last.toList
  | first :: rest => (fields.add first.toList).close.addEach rest

mutual

/-- Expand a part of a word. -/
def expandPiece (session : Session) : Piece → Fields → Fields
  | .text chars quoted, fields =>
    if chars.isEmpty && !quoted then fields else fields.add chars
  | .parameter name quoted, fields =>
    if name = "@" && quoted then
      if session.arguments.isEmpty then fields else fields.addEach session.arguments
    else fields.addText ((session.value? name).getD "").toList quoted
  | .substitute name whenSet emptyIsUnset word quoted, fields =>
    let value := (session.value? name).filter fun v ↦ !(emptyIsUnset && v = "")
    match value, whenSet with
    | none, true => if quoted then fields.add [] else fields
    | some _, true | none, false => expandPieces session word fields
    | some value, false => fields.addText value.toList quoted

/-- Expand the parts of a word. -/
def expandPieces (session : Session) : List Piece → Fields → Fields
  | [], fields => fields
  | piece :: rest, fields => expandPieces session rest (expandPiece session piece fields)

end

/-- The fields that a word becomes. -/
def expand (session : Session) (word : Word) : List String :=
  ((expandPieces session word ⟨[], none⟩).close.finished).map String.ofList

/-- The text that a word becomes where it is not split. -/
def expandWhole (session : Session) (word : Word) : String :=
  " ".intercalate (session.expand word)

end Session

end AppManifest.Host.Shell
