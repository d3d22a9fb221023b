import AppManifest.Json.Cursor
/-!
# Reading JSON values

`tree` reads any value. `items` and `members` read what stands between brackets and are shared
with the readers of values of a known form; `mismatch` is the fault of a value that does not have
the form its place asks for. `skipValue` goes past a value whose content does not matter.

At most 127 lists and objects may be open at a time, except inside skipped values.
-/

namespace AppManifest.Json

/-- How many lists and objects may be open at a time. -/
def nestingLimit : Nat := 127

/-- Read a value that is neither a list nor an object, if one starts here. -/
def scalar? : Reader (Option Json) := fun c ↦
  match c.rest with
  | [] => .ok (none, c)
  | ch :: _ =>
    if ch = 'n' then do
      let (_, c) ← word ['u', 'l', 'l'] c.skip
      .ok (some .null, c)
    else if ch = 't' then do
      let (_, c) ← word ['r', 'u', 'e'] c.skip
      .ok (some (.bool true), c)
    else if ch = 'f' then do
      let (_, c) ← word ['a', 'l', 's', 'e'] c.skip
      .ok (some (.bool false), c)
    else if ch = '-' then do
      let (n, c) ← number true c.skip
      .ok (some n, c)
    else if isDigit ch then do
      let (n, c) ← number false c
      .ok (some n, c)
    else if ch = '"' then do
      let (s, c) ← stringBody c.skip
      .ok (some (.string s), c)
    else .ok (none, c)

/-- What a tree is called where it does not fit. -/
def Found.ofTree : Json → Found
  | .null => .null
  | .bool b => .bool b
  | .int n => .int n
  | .float x => .float x
  | .string s => .string s
  | .array _ => .sequence
  | .object _ => .map

/-- The fault of a value that is not what its place expects. A scalar is read first; a list or an
object is named without being read. -/
def mismatch {α : Type} (expected : String) (c : Cursor) : Except Fault α :=
  match scalar? c with
  | .error fault => .error fault
  | .ok (some found, c) => c.faultBehind (.invalidType (.ofTree found) expected)
  | .ok (none, c) =>
    if c.startsWith ['['] then c.faultBehind (.invalidType .sequence expected)
    else if c.startsWith ['\x7b'] then c.faultBehind (.invalidType .map expected)
    else c.faultAt .expectedValue

/-- Go past white space to the start of a value. -/
def valueStart (c : Cursor) : Except Fault Cursor :=
  let c := skipBlanks c
  if c.rest.isEmpty then c.faultAt .endInValue else .ok c

/-- Go past an opening bracket, if one more list or object may be opened. -/
def openBracket (depth : Nat) (c : Cursor) : Except Fault Cursor :=
  if depth = 0 then c.faultAt .nestedTooDeeply else .ok c.skip

/-! ### Between brackets -/

/-- Whether another element follows. The cursor is left at its first byte, or at the closing
bracket. -/
def nextItem (first : Bool) : Reader Bool := fun c ↦
  let c := skipBlanks c
  if c.rest.isEmpty then c.faultAt .endInList
  else if c.startsWith [']'] then .ok (false, c)
  else if first then .ok (true, c)
  else if c.startsWith [','] then
    let c := skipBlanks c.skip
    if c.rest.isEmpty then c.faultAt .endInValue
    else if c.startsWith [']'] then c.faultAt .trailingComma
    else .ok (true, c)
  else c.faultAt .expectedListCommaOrEnd

/-- Read the elements up to the closing bracket. -/
def items {α : Type} (item : Reader α) : Nat → Bool → Reader (List α)
  | 0, _, c => c.faultAt .endInList
  | fuel + 1, first, c => do
    let (more, c) ← nextItem first c
    if more then
      let (value, c) ← item c
      let (rest, c) ← items item fuel false c
      .ok (value :: rest, c)
    else .ok ([], c)

/-- The key of the next member, or nothing at the closing bracket. -/
def nextKey (first : Bool) : Reader (Option String) := fun c ↦
  let c := skipBlanks c
  let key := fun (c : Cursor) ↦ do
    let (name, c) ← stringBody c.skip
    .ok (some name, c)
  if c.rest.isEmpty then c.faultAt .endInObject
  else if c.startsWith ['\x7d'] then .ok (none, c)
  else if first then (if c.startsWith ['"'] then key c else c.faultAt .keyNotString)
  else if c.startsWith [','] then
    let c := skipBlanks c.skip
    if c.rest.isEmpty then c.faultAt .endInValue
    else if c.startsWith ['"'] then key c
    else if c.startsWith ['\x7d'] then c.faultAt .trailingComma
    else c.faultAt .keyNotString
  else c.faultAt .expectedObjectCommaOrEnd

/-- Go past the colon behind a key. -/
def colon (c : Cursor) : Except Fault Cursor :=
  let c := skipBlanks c
  if c.rest.isEmpty then c.faultAt .endInObject
  else if c.startsWith [':'] then .ok c.skip
  else c.faultAt .expectedColon

/-- Read the members up to the closing bracket; each one changes a state. -/
def membersInto {σ : Type} (member : σ → String → Reader σ) : Nat → Bool → σ → Reader σ
  | 0, _, _, c => c.faultAt .endInObject
  | fuel + 1, first, state, c => do
    let (key, c) ← nextKey first c
    match key with
    | none => .ok (state, c)
    | some key =>
      let (state, c) ← member state key c
      membersInto member fuel false state c

/-- Read the members up to the closing bracket, all with values of one form. -/
def members {α : Type} (value : Reader α) : Nat → Bool → Reader (List (String × α))
  | 0, _, c => c.faultAt .endInObject
  | fuel + 1, first, c => do
    let (key, c) ← nextKey first c
    match key with
    | none => .ok ([], c)
    | some key =>
      let c ← colon c
      let (v, c) ← value c
      let (rest, c) ← members value fuel false c
      .ok ((key, v) :: rest, c)

/-! ### Whole values -/

/-- Read any value. What is inside a list or an object is read by `inner`; without it there is no
room for another bracket. -/
def treeAround (inner : Option (Reader Json)) : Reader Json := fun c ↦ do
  let c ← valueStart c
  let (found, c) ← scalar? c
  match found, inner with
  | some value, _ => .ok (value, c)
  | none, some inner =>
    if c.startsWith ['['] then
      let (elements, c) ← items inner c.fuel true c.skip
      .ok (.array elements, c.skip)
    else if c.startsWith ['\x7b'] then
      let (pairs, c) ← members inner c.fuel true c.skip
      .ok (.object pairs, c.skip)
    else c.faultAt .expectedValue
  | none, none =>
    c.faultAt (if c.startsWith ['[', '\x7b'] then .nestedTooDeeply else .expectedValue)

/-- Read any value, with room for the given number of open lists and objects. -/
def tree : Nat → Reader Json
  | 0 => treeAround none
  | depth + 1 => treeAround (some (tree depth))

/-- Read a string. -/
def stringValue : Reader String := fun c ↦ do
  let c ← valueStart c
  if c.startsWith ['"'] then stringBody c.skip else mismatch "a string" c

/-- Read a string or `null`. -/
def optionalString : Reader (Option String) := fun c ↦ do
  let c ← valueStart c
  if c.startsWith ['n'] then
    let (_, c) ← word ['u', 'l', 'l'] c.skip
    .ok (none, c)
  else
    let (s, c) ← stringValue c
    .ok (some s, c)

/-- Read a list of values of one form, which is given the room left. -/
def listOf {α : Type} (depth : Nat) (item : Nat → Reader α) : Reader (List α) := fun c ↦ do
  let c ← valueStart c
  if c.startsWith ['['] then
    let inside ← openBracket depth c
    let (elements, c) ← items (item (depth - 1)) inside.fuel true inside
    .ok (elements, c.skip)
  else mismatch "a sequence" c

/-- Read an object of values of one form, which is given the room left. -/
def objectOf {α : Type} (depth : Nat) (value : Nat → Reader α) : Reader (List (String × α)) :=
  fun c ↦ do
  let c ← valueStart c
  if c.startsWith ['\x7b'] then
    let inside ← openBracket depth c
    let (pairs, c) ← members (value (depth - 1)) inside.fuel true inside
    .ok (pairs, c.skip)
  else mismatch "a map" c

/-! ### Skipped values -/

/-- Go past a number behind its sign. -/
def skipNumber : Reader Unit := fun c ↦ do
  let (_, c) ← wholeDigits .invalidNumber c
  let (_, c) ← fractionDigits .invalidNumber c
  let (_, c) ← exponentDigits .invalidNumber c
  .ok ((), c)

/-- Go past a string behind its opening quote. Escapes must have the right form, but surrogates
need not come in pairs. -/
def skipStringFrom : Nat → Reader Unit
  | 0, c => c.faultBehind .endInString
  | fuel + 1, c =>
    match c.rest with
    | [] => c.faultBehind .endInString
    | ch :: _ =>
      if ch = '"' then .ok ((), c.skip)
      else if ch = '\\' then
        match c.skip.rest with
        | [] => c.skip.faultBehind .endInString
        | letter :: _ =>
          if letter = 'u' then do
            let (_, c) ← hexEscape c.skip.skip
            skipStringFrom fuel c
          else if (escapeLetter? letter).isSome then skipStringFrom fuel c.skip.skip
          else .error ⟨.invalidEscape, some (c.skip.offset + 1)⟩
      else if ch.toNat < 32 then c.faultBehind .controlCharacter
      else skipStringFrom fuel c.skip

/-- Go past a string behind its opening quote. -/
def skipString : Reader Unit := fun c ↦ skipStringFrom c.fuel c

/-- A list or an object that is open around a skipped value. -/
inductive Bracket where
  | list
  | object
  deriving DecidableEq

/-- Go past a value that is neither a list nor an object. -/
def skipScalar : Reader Unit := fun c ↦
  if c.startsWith ['n'] then word ['u', 'l', 'l'] c.skip
  else if c.startsWith ['t'] then word ['r', 'u', 'e'] c.skip
  else if c.startsWith ['f'] then word ['a', 'l', 's', 'e'] c.skip
  else if c.startsWith ['-'] then skipNumber c.skip
  else if c.startsWith ['"'] then skipString c.skip
  else
    match c.rest with
    | ch :: _ => if isDigit ch then skipNumber c else c.faultAt .expectedValue
    | [] => c.faultAt .endInValue

/-- Go past the key of a member and its colon. -/
def skipKey (c : Cursor) : Except Fault Cursor := do
  let c := skipBlanks c
  if c.rest.isEmpty then c.faultAt .endInObject
  else if c.startsWith ['"'] then
    let (_, c) ← skipString c.skip
    colon c
  else c.faultAt .keyNotString

/-- Where a walk over a skipped value stands. -/
inductive SkipState where
  /-- In front of a value. -/
  | value
  /-- Behind an opening bracket, or behind an element or a member if `comma`. -/
  | inside (comma : Bool)

/-- Go past a value, given the brackets that it opened so far, the innermost first. -/
def skipFrom : Nat → SkipState → List Bracket → Reader Unit
  | 0, _, _, c => c.faultAt .endInValue
  | fuel + 1, .value, stack, c => do
    let c ← valueStart c
    if c.startsWith ['['] then skipFrom fuel (.inside false) (.list :: stack) c.skip
    else if c.startsWith ['\x7b'] then skipFrom fuel (.inside false) (.object :: stack) c.skip
    else
      let (_, c) ← skipScalar c
      if stack.isEmpty then .ok ((), c) else skipFrom fuel (.inside true) stack c
  | _ + 1, .inside _, [], c => .ok ((), c)
  | fuel + 1, .inside comma, bracket :: stack, c =>
    let c := skipBlanks c
    let next := fun (c : Cursor) ↦ do
      let c ← if bracket = .object then skipKey c else .ok c
      skipFrom fuel .value (bracket :: stack) c
    if c.rest.isEmpty then c.faultAt (if bracket = .list then .endInList else .endInObject)
    else if comma && c.startsWith [','] then next c.skip
    else if c.startsWith [if bracket = .list then ']' else '\x7d'] then
      skipFrom fuel (.inside true) stack c.skip
    else if comma then
      c.faultAt (if bracket = .list then .expectedListCommaOrEnd else .expectedObjectCommaOrEnd)
    else next c

/-- Go past a value whose content does not matter, however deeply it is nested. -/
def skipValue : Reader Unit := fun c ↦ skipFrom c.fuel .value [] c

/-! ### Whole texts -/

/-- Read a text that holds one value and nothing else but white space. -/
def readAll {α : Type} (reader : Reader α) (text : String) : Except Fault α := do
  let (value, c) ← reader (Cursor.start text)
  let c := skipBlanks c
  if c.rest.isEmpty then .ok value else c.faultAt .trailingCharacters

/-- Read a text as a tree. -/
def ofText (text : String) : Except Fault Json := readAll (tree nestingLimit) text

end AppManifest.Json
