/-!
# Field paths

The way from the root of a field bag to a value in it: keys of objects and indices of lists. Its
text joins keys with dots and puts indices between brackets, as in
`function.hello.triggers[0].kind`; the dot is left out where no text stands before it.
-/

namespace AppManifest

/-- A step into an object or a list. -/
inductive Segment where
  | key (name : String)
  | index (i : Nat)
  deriving DecidableEq, Repr

/-- Steps from the root on. -/
structure Path where
  segments : List Segment
  deriving DecidableEq, Repr

namespace Path

/-- The root itself. -/
def root : Path := ⟨[]⟩

/-- One step further, into the value under a key. -/
def key (path : Path) (name : String) : Path := ⟨path.segments ++ [.key name]⟩

/-- One step further, into an element of a list. -/
def index (path : Path) (i : Nat) : Path := ⟨path.segments ++ [.index i]⟩

/-- The fields of a block: its kind, then its name. -/
def ofBlock (kind name : String) : Path := (root.key kind).key name

/-- The text of one more segment behind a given text. -/
def segmentChars (before : List Char) : Segment → List Char
  | .key name => if before.isEmpty then name.toList else '.' :: name.toList
  | .index i => '[' :: Nat.toDigits 10 i ++ [']']

/-- The text of segments behind a given text, that text included. -/
def charsAfter (before : List Char) : List Segment → List Char
  | [] => before
  | segment :: rest => charsAfter (before ++ segmentChars before segment) rest

/-- The text of a path. -/
def text (path : Path) : String :=
  if path.segments.isEmpty then "<root>" else String.ofList (charsAfter [] path.segments)

end Path

end AppManifest
