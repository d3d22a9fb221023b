import AppManifest.Text.Unprintable
/-!
# Quoted text

The form in which names and strings are shown inside messages: between double quotes, with
escapes for quotes, backslashes, line breaks and everything that would not be visible.
-/

namespace AppManifest.Text

/-- The digits of a number in base sixteen, lower case. -/
def hexChars (n : Nat) : List Char := Nat.toDigits 16 n

/-- A character as it stands in quoted text. -/
def quoteChar (c : Char) : List Char :=
  if c = '"' then ['\\', '"']
  else if c = '\\' then ['\\', '\\']
  else if c = '\n' then ['\\', 'n']
  else if c = '\r' then ['\\', 'r']
  else if c = '\t' then ['\\', 't']
  else if c.toNat = 0 then ['\\', '0']
  else if isUnprintable c then ['\\', 'u', '\x7b'] ++ hexChars c.toNat ++ ['\x7d']
  else [c]

/-- A string between double quotes, with escapes. -/
def quoted (s : String) : String :=
  String.ofList ('"' :: s.toList.flatMap quoteChar ++ ['"'])

end AppManifest.Text
