import AppManifest.Document.JsonForm
import AppManifest.Json.Reader
/-!
# Reading documents from JSON text

The readers of documents, packages, blocks, field bags and references follow the text in one pass
and stop at the first thing that does not fit, whether it is wrong as JSON or has the wrong form
for its place. Members that are not known are passed over without being looked into.

A record is written as an object, or as the list of its members in order.
-/

namespace AppManifest

namespace Json

/-- Read a value as an element of a field bag or a list. -/
def value (depth : Nat) : Reader Value := fun c ↦ do
  let (found, c) ← tree depth c
  .ok (.ofJson found, c)

/-- Read an object as a field bag. -/
def fieldBag (depth : Nat) : Reader Fields := fun c ↦ do
  let (pairs, c) ← objectOf depth value c
  .ok (Entries.ofList pairs, c)

/-! ### Records -/

/-- The fault of a member that a record does not accept. It is noticed behind the key and the
white space that follows, and behind the bracket if that closes the record here. -/
def refuseKey {α : Type} (cause : Cause) (c : Cursor) : Except Fault α :=
  let c := skipBlanks c
  if c.startsWith ['\x7d'] then c.skip.faultBehind cause else c.faultBehind cause

/-- Read the value of a member behind its key. -/
def memberValue {α : Type} (reader : Reader α) : Reader α := fun c ↦ do
  let c ← colon c
  reader c

/-- Read the value of a member that a record may have once. -/
def onlyOnce {α : Type} (key : String) (current : Option α) (reader : Reader α) : Reader α :=
  fun c ↦ if current.isSome then refuseKey (.duplicateField key) c else memberValue reader c

/-- Read the next element of a record written as a list, if there is one. -/
def nextElement? {α : Type} (first : Bool) (reader : Reader α) : Reader (Option α) := fun c ↦ do
  let (more, c) ← nextItem first c
  if more then
    let (found, c) ← reader c
    .ok (some found, c)
  else .ok (none, c)

/-- Go past the closing bracket of a record written as a list. -/
def closeList (c : Cursor) : Except Fault Cursor :=
  let c := skipBlanks c
  if c.rest.isEmpty then c.faultAt .endInList
  else if c.startsWith [']'] then .ok c.skip
  else if c.startsWith [','] then
    let c := skipBlanks c.skip
    if c.startsWith [']'] then c.faultAt .trailingComma else c.faultAt .trailingCharacters
  else c.faultAt .trailingCharacters

/-- The fault of a record that ended without one of its members. -/
def lacking {α : Type} (cause : Cause) (c : Cursor) : Except Fault α :=
  if c.startsWith [']', '\x7d'] then c.skip.faultBehind cause else c.faultBehind cause

/-- Read a record: the elements of a list by `elements`, or the members of an object by `member`
from an empty state on, which `finish` turns into the record in front of the closing bracket. -/
def record {α σ : Type} (expected : String) (depth : Nat) (elements : Nat → Reader α)
    (start : σ) (member : Nat → σ → String → Reader σ)
    (finish : σ → Cursor → Except Fault α) : Reader α := fun c ↦ do
  let c ← valueStart c
  if c.startsWith ['['] then
    let c ← openBracket depth c
    let (found, c) ← elements (depth - 1) c
    let c ← closeList c
    .ok (found, c)
  else if c.startsWith ['\x7b'] then
    let c ← openBracket depth c
    let (state, c) ← membersInto (member (depth - 1)) c.fuel true start c
    let found ← finish state c
    .ok (found, c.skip)
  else mismatch expected c

end Json

open Json

namespace Block

/-- The members of a block read so far. -/
structure Draft where
  kind : Option String
  name : Option String
  fields : Option Fields

/-- Read one member of a block. -/
def readMember (depth : Nat) (seen : Draft) (key : String) : Reader Draft := fun c ↦ do
  if key = "kind" then
    let (kind, c) ← onlyOnce key seen.kind stringValue c
    .ok ({ seen with kind := some kind }, c)
  else if key = "name" then
    let (name, c) ← onlyOnce key seen.name stringValue c
    .ok ({ seen with name := some name }, c)
  else if key = "fields" then
    let (fields, c) ← onlyOnce key seen.fields (fieldBag depth) c
    .ok ({ seen with fields := some fields }, c)
  else
    let (_, c) ← memberValue skipValue c
    .ok (seen, c)

/-- A block from its members, of which kind and name must be there. -/
def ofDraft (seen : Draft) (c : Cursor) : Except Fault Block :=
  match seen.kind, seen.name with
  | none, _ => lacking (.missingField "kind") c
  | some _, none => lacking (.missingField "name") c
  | some kind, some name => .ok ⟨kind, name, seen.fields.getD []⟩

/-- How a block is called where another value stands. -/
def expectation : String := "struct Block"

/-- Read a block written as a list. -/
def readElements (depth : Nat) : Reader Block := fun c ↦ do
  let tooShort := fun (n : Nat) ↦ Cause.invalidLength n (expectation ++ " with 3 elements")
  let (kind, c) ← nextElement? true stringValue c
  match kind with
  | none => lacking (tooShort 0) c
  | some kind =>
    let (name, c) ← nextElement? false stringValue c
    match name with
    | none => lacking (tooShort 1) c
    | some name =>
      let (fields, c) ← nextElement? false (fieldBag depth) c
      .ok (⟨kind, name, fields.getD []⟩, c)

/-- Read a block. -/
def read (depth : Nat) : Reader Block :=
  record expectation depth readElements ⟨none, none, none⟩ readMember ofDraft

end Block

namespace Package

/-- Read one member of a package. -/
def readMember (depth : Nat) (seen : Option (Option String) × Option (List Block))
    (key : String) : Reader (Option (Option String) × Option (List Block)) := fun c ↦ do
  if key = "name" then
    let (name, c) ← onlyOnce key seen.1 optionalString c
    .ok ((some name, seen.2), c)
  else if key = "blocks" then
    let (blocks, c) ← onlyOnce key seen.2 (listOf depth Block.read) c
    .ok ((seen.1, some blocks), c)
  else
    let (_, c) ← memberValue skipValue c
    .ok (seen, c)

/-- Read a package written as a list. -/
def readElements (depth : Nat) : Reader Package := fun c ↦ do
  let (name, c) ← nextElement? true optionalString c
  let (blocks, c) ← nextElement? false (listOf depth Block.read) c
  .ok (⟨name.getD none, blocks.getD []⟩, c)

/-- Read a package. -/
def read (depth : Nat) : Reader Package :=
  record "struct Package" depth readElements (none, none) readMember
    fun seen _ ↦ .ok ⟨seen.1.getD none, seen.2.getD []⟩

end Package

namespace Document

/-- Read one member of a document. -/
def readMember (depth : Nat) (seen : Option (Option String) × Option (List Package))
    (key : String) : Reader (Option (Option String) × Option (List Package)) := fun c ↦ do
  if key = "version" then
    let (version, c) ← onlyOnce key seen.1 optionalString c
    .ok ((some version, seen.2), c)
  else if key = "packages" then
    let (packages, c) ← onlyOnce key seen.2 (listOf depth Package.read) c
    .ok ((seen.1, some packages), c)
  else
    let (_, c) ← memberValue skipValue c
    .ok (seen, c)

/-- Read a document written as a list. -/
def readElements (depth : Nat) : Reader Document := fun c ↦ do
  let (version, c) ← nextElement? true optionalString c
  let (packages, c) ← nextElement? false (listOf depth Package.read) c
  .ok (⟨version.getD none, packages.getD []⟩, c)

/-- Read a document. -/
def read (depth : Nat) : Reader Document :=
  record "struct Spec" depth readElements (none, none) readMember
    fun seen _ ↦ .ok ⟨seen.1.getD none, seen.2.getD []⟩

end Document

namespace BlockRef

/-- Read one member of a reference. -/
def readMember (seen : Option String × Option (Option String)) (key : String) :
    Reader (Option String × Option (Option String)) := fun c ↦ do
  if key = "$ref" then
    let (name, c) ← onlyOnce key seen.1 stringValue c
    .ok ((some name, seen.2), c)
  else if key = "$kind" then
    let (kind, c) ← onlyOnce key seen.2 optionalString c
    .ok ((seen.1, some kind), c)
  else refuseKey (.unknownField key) c

/-- Read a reference, which is always written as an object. -/
def read (depth : Nat) : Reader BlockRef := fun c ↦ do
  let c ← valueStart c
  if c.startsWith ['\x7b'] then
    let c ← openBracket depth c
    let (seen, c) ← membersInto readMember c.fuel true (none, none) c
    match seen.1 with
    | none => lacking (.missingField "$ref") c
    | some name => .ok (⟨name, seen.2.getD none⟩, c.skip)
  else mismatch "an object with a `$ref` key" c

end BlockRef

namespace Json

/-- Read a text that is a document. -/
def readDocument : String → Except Fault Document := readAll (Document.read nestingLimit)

/-- Read a text that is a block. -/
def readBlock : String → Except Fault Block := readAll (Block.read nestingLimit)

/-- Read a text that is a field bag. -/
def readFields : String → Except Fault Fields := readAll (fieldBag nestingLimit)

/-- Read a text that is a value. -/
def readValue : String → Except Fault Value := readAll (value nestingLimit)

/-- Read a text that is a reference. -/
def readBlockRef : String → Except Fault BlockRef := readAll (BlockRef.read nestingLimit)

end Json

end AppManifest
