import AppManifest.Entries
import AppManifest.Json
/-!
# Building tables

A TOML text defines tables in several ways: by a header, implicitly as the parent of a header's
table, by the dots of a key, and as an element of an array of tables. A table must not be
defined twice, and each way may extend only some of the tables that are already there.
-/

namespace AppManifest.Toml

/-- How a table came about. -/
inductive Origin where
  /-- By a header of its own, or as an inline table. -/
  | header
  /-- As a parent of the table of a header. -/
  | parent
  /-- By the dots of a key. -/
  | dotted
  deriving DecidableEq

/-- A table, an array of tables, or a finished value. -/
inductive Node where
  | leaf (value : Json)
  | table (origin : Origin) (entries : List (String × Node))
  /-- The elements of an array of tables, the last one first. -/
  | tables (last : List (String × Node)) (before : List (List (String × Node)))

/-- The entries of a table. -/
abbrev Table := Entries Node

namespace Table

/-- Give a new key a value. -/
def define? (table : Table) (key : String) (node : Node) : Option Table :=
  if table.contains key then none else some (table.insert key node)

/-- Define a key with dots: the tables on the way are created, or are such as dots created; only
tables that stem from headers' parents may also be passed through. -/
def defineDotted? : Table → List String → Node → Option Table
  | _, [], _ => none
  | table, [key], node => table.define? key node
  | table, key :: next :: more, node =>
    match table.get? key with
    | none => do
      let inner ← defineDotted? [] (next :: more) node
      some (table.insert key (.table .dotted inner))
    | some (.table origin entries) =>
      if origin = .dotted ∨ (origin = .parent ∧ more ≠ []) then do
        let inner ← defineDotted? entries (next :: more) node
        some (table.insert key (.table origin inner))
      else none
    | some _ => none

/-- Change the table at a path of headers, in the last element of arrays of tables. Tables on the
way that do not exist are created. -/
def change? (f : Table → Option Table) : List String → Table → Option Table
  | [], table => f table
  | key :: more, table =>
    match table.get? key with
    | none => do
      let inner ← change? f more []
      some (table.insert key (.table .parent inner))
    | some (.table origin entries) => do
      let inner ← change? f more entries
      some (table.insert key (.table origin inner))
    | some (.tables last before) => do
      let inner ← change? f more last
      some (table.insert key (.tables inner before))
    | some (.leaf _) => none

/-- Open the table of a header: it must be new, or exist only as a parent. -/
def openTable? (path : List String) (table : Table) : Option Table :=
  match path.reverse with
  | [] => none
  | key :: parents =>
    table.change? (fun parent ↦
      match parent.get? key with
      | none => some (parent.insert key (.table .header []))
      | some (.table .parent entries) => some (parent.insert key (.table .header entries))
      | some _ => none) parents.reverse

/-- Open a new element of the array of tables of a header. -/
def openElement? (path : List String) (table : Table) : Option Table :=
  match path.reverse with
  | [] => none
  | key :: parents =>
    table.change? (fun parent ↦
      match parent.get? key with
      | none => some (parent.insert key (.tables [] []))
      | some (.tables last before) => some (parent.insert key (.tables [] (last :: before)))
      | some _ => none) parents.reverse

end Table

mutual

/-- The tree of a node. Keys are sorted by code points. -/
def Node.toJson : Node → Json
  | .leaf value => value
  | .table _ entries => .object (sortedMembers entries)
  | .tables last before => .array (elementTrees before [.object (sortedMembers last)])

/-- The members of a table, sorted. -/
def sortedMembers : List (String × Node) → List (String × Json)
  | [] => []
  | (key, node) :: rest => Entries.insertSorted key node.toJson (sortedMembers rest)

/-- The trees of elements that come in reverse order, in front of others. -/
def elementTrees : List (List (String × Node)) → List Json → List Json
  | [], done => done
  | element :: before, done => elementTrees before (.object (sortedMembers element) :: done)

end

end AppManifest.Toml
