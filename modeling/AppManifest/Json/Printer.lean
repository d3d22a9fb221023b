import AppManifest.Json
import AppManifest.Binary64.Shortest
/-!
# JSON text

The compact form has no white space; the pretty form puts every element and member on a line of
its own, indented by two spaces for each level. Strings escape quotes, backslashes and control
characters and nothing else. A number that is not finite is written `null`.
-/

namespace AppManifest.Json

/-- Two digits of base sixteen, lower case. -/
def twoHexDigits (n : Nat) : List Char := [Nat.digitChar (n / 16 % 16), Nat.digitChar (n % 16)]

/-- A character inside a string. -/
def escapeChar (c : Char) : List Char :=
  if c = '"' then ['\\', '"']
  else if c = '\\' then ['\\', '\\']
  else if c = '\n' then ['\\', 'n']
  else if c = '\r' then ['\\', 'r']
  else if c = '\t' then ['\\', 't']
  else if c.toNat = 8 then ['\\', 'b']
  else if c.toNat = 12 then ['\\', 'f']
  else if c.toNat < 32 then '\\' :: 'u' :: '0' :: '0' :: twoHexDigits c.toNat
  else [c]

/-- A string between double quotes. -/
def stringChars (s : String) : List Char := '"' :: s.toList.flatMap escapeChar ++ ['"']

/-- An integer in decimal notation. -/
def intChars (n : Int) : List Char :=
  (if n < 0 then ['-'] else []) ++ Nat.toDigits 10 n.natAbs

/-- A number; `null` if it is not finite. -/
def floatChars (x : Binary64) : List Char :=
  if x.isFinite then x.scientificText.toList else "null".toList

mutual

/-- The compact text of a tree. -/
def compactChars : Json → List Char
  | .null => "null".toList
  | .bool b => if b then "true".toList else "false".toList
  | .int n => intChars n
  | .float x => floatChars x
  | .string s => stringChars s
  | .array items => '[' :: compactItems items ++ [']']
  | .object members => '\x7b' :: compactMembers members ++ ['\x7d']

/-- Elements with commas between them. -/
def compactItems : List Json → List Char
  | [] => []
  | [item] => compactChars item
  | item :: rest => compactChars item ++ ',' :: compactItems rest

/-- Members with commas between them. -/
def compactMembers : List (String × Json) → List Char
  | [] => []
  | [(key, value)] => stringChars key ++ ':' :: compactChars value
  | (key, value) :: rest =>
    stringChars key ++ ':' :: compactChars value ++ ',' :: compactMembers rest

end

/-- The start of a line at a nesting level. -/
def newLine (level : Nat) : List Char := '\n' :: List.replicate (2 * level) ' '

mutual

/-- The pretty text of a tree that stands at a nesting level. -/
def prettyChars (level : Nat) : Json → List Char
  | .array [] => ['[', ']']
  | .array items => '[' :: prettyItems (level + 1) items ++ newLine level ++ [']']
  | .object [] => ['\x7b', '\x7d']
  | .object members =>
    '\x7b' :: prettyMembers (level + 1) members ++ newLine level ++ ['\x7d']
  | leaf => compactChars leaf

/-- Elements on lines of their own. -/
def prettyItems (level : Nat) : List Json → List Char
  | [] => []
  | [item] => newLine level ++ prettyChars level item
  | item :: rest => newLine level ++ prettyChars level item ++ ',' :: prettyItems level rest

/-- Members on lines of their own. -/
def prettyMembers (level : Nat) : List (String × Json) → List Char
  | [] => []
  | [(key, value)] => newLine level ++ stringChars key ++ [':', ' '] ++ prettyChars level value
  | (key, value) :: rest =>
    newLine level ++ stringChars key ++ [':', ' '] ++ prettyChars level value ++
      ',' :: prettyMembers level rest

end

/-- The compact text. -/
def compact (tree : Json) : String := String.ofList tree.compactChars

/-- The pretty text. -/
def pretty (tree : Json) : String := String.ofList (tree.prettyChars 0)

end AppManifest.Json
