/-!
# Places in a text

A place in a text is a byte offset, or a line and a column that count from one. `lineColumn`
goes from an offset to its line and to the number of bytes before it on that line; `offsetOf`
goes back from a line and a column, and places beyond the end of a line or of the text fall on
that end.
-/

namespace AppManifest.Text

/-- The byte that ends a line. -/
def newline : UInt8 := 10

/-- The bytes of a text. -/
def bytes (text : String) : List UInt8 := text.toUTF8.data.toList

/-- The line that an offset lies on, counted from one, and the number of bytes before it on that
line. -/
def lineColumn (source : List UInt8) (offset : Nat) : Nat × Nat :=
  let before := source.take offset
  (before.count newline + 1, (before.reverse.takeWhile (· != newline)).length)

/-- The length of the first line, its newline included. -/
def lineLength : List UInt8 → Nat
  | [] => 0
  | b :: rest => if b = newline then 1 else lineLength rest + 1

/-- The offset of the start of the line that follows `count` newlines, or the end of the text if
it has fewer. -/
def lineStart (source : List UInt8) : Nat → Nat
  | 0 => 0
  | count + 1 => lineLength source + lineStart (source.drop (lineLength source)) count

/-- The offset at a line and a column, both counted from one. A column past the end of the line
falls behind its newline, a line past the last one at the end of the text, and column zero at the
start of the line; there is no line zero. -/
def offsetOf (source : List UInt8) (line column : Nat) : Option Nat :=
  if line = 0 then none
  else
    let start := lineStart source (line - 1)
    some (start + min (column - 1) (lineLength (source.drop start)))

end AppManifest.Text
