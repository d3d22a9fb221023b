import AppManifest.Toml.Scalar
import AppManifest.Toml.Table
/-!
# Reading TOML

A TOML text is read as a JSON tree with the keys of every table sorted. What is wrong with a text
that does not fit is not described.
-/

namespace AppManifest.Toml

/-- How many arrays and inline tables may be open at a time. -/
def nestingLimit : Nat := 80

/-- Read the elements of an array behind its opening bracket. A comma may follow the last one. -/
def arrayItems (value : Scan Json) : Nat → List Json → Scan (List Json)
  | 0, _, _ => none
  | fuel + 1, done, cs =>
    match skipSpace fuel cs with
    | ']' :: rest => some (done.reverse, rest)
    | cs => do
      let (item, rest) ← value cs
      match skipSpace fuel rest with
      | ',' :: rest => arrayItems value fuel (item :: done) rest
      | ']' :: rest => some ((item :: done).reverse, rest)
      | _ => none

/-- Read the entries of an inline table, at the first one or behind a comma. -/
def inlineEntries (value : Scan Json) : Nat → Table → Scan Table
  | 0, _, _ => none
  | fuel + 1, table, cs => do
    let (path, rest) ← key fuel cs
    let rest ← mark? '=' rest
    let (found, rest) ← value (skipBlanks rest)
    let table ← table.defineDotted? path (.leaf found)
    match skipBlanks rest with
    | ',' :: rest => inlineEntries value fuel table rest
    | '\x7d' :: rest => some (table, rest)
    | _ => none

/-- Read an inline table behind its opening brace. -/
def inlineTable (value : Scan Json) (fuel : Nat) : Scan Json := fun cs ↦
  match skipBlanks cs with
  | '\x7d' :: rest => some (.object [], rest)
  | cs => do
    let (table, rest) ← inlineEntries value fuel [] cs
    some (.object (sortedMembers table), rest)

/-- Read a value; arrays and inline tables have their values read by `inner`, if there is room for
one more of them. -/
def valueAround (inner : Option (Scan Json)) : Scan Json := fun cs ↦
  match cs with
  | [] => none
  | c :: rest =>
    if c = '[' then do
      let inner ← inner
      let (items, rest) ← arrayItems inner (rest.length + 1) [] rest
      some (.array items, rest)
    else if c = '\x7b' then do
      let inner ← inner
      inlineTable inner (rest.length + 1) rest
    else if c = '"' || c.toNat = 39 then do
      let (text, rest) ← string? cs
      some (.string text, rest)
    else
      let (word, rest) := scalarChars cs
      (scalar? word).map (·, rest)

/-- Read a value with room for a number of open arrays and inline tables. -/
def value : Nat → Scan Json
  | 0 => valueAround none
  | depth + 1 => valueAround (some (value depth))

/-- Read a header behind its opening brackets, up to its closing ones. -/
def header (closing : List Char) (cs : List Char) : Option (List String × List Char) := do
  let (path, rest) ← key (cs.length + 1) cs
  if rest.take closing.length = closing then some (path, rest.drop closing.length) else none

/-- Read lines into the tables so far; `current` is the path of the table of the last header. -/
def lines : Nat → List String → Table → List Char → Option Table
  | 0, _, _, _ => none
  | fuel + 1, current, root, cs =>
    match skipSpace (cs.length + 1) cs with
    | [] => some root
    | '[' :: '[' :: rest => do
      let (path, rest) ← header [']', ']'] rest
      let root ← root.openElement? path
      lines fuel path root (← endOfLine? rest)
    | '[' :: rest => do
      let (path, rest) ← header [']'] rest
      let root ← root.openTable? path
      lines fuel path root (← endOfLine? rest)
    | cs => do
      let (path, rest) ← key (cs.length + 1) cs
      let rest ← mark? '=' rest
      let (found, rest) ← value nestingLimit (skipBlanks rest)
      let root ← root.change? (·.defineDotted? path (.leaf found)) current
      lines fuel current root (← endOfLine? rest)

/-- Read a text as a tree. A byte order mark at its start is passed over. -/
def ofText? (text : String) : Option Json :=
  let cs := match text.toList with
    | c :: rest => if c.toNat = 0xFEFF then rest else c :: rest
    | [] => []
  (lines (cs.length + 1) [] [] cs).map fun root ↦ .object (sortedMembers root)

end AppManifest.Toml
