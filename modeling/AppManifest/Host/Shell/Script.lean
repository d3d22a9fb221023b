/-!
# Shell scripts

The tree of a small shell language: simple commands with quoting, parameters and redirections,
put together by pipes, conditions, sequences, groups and subshells. There are no loops, so a
script runs by recursion on its tree.
-/

namespace AppManifest.Host.Shell

/-- A part of a word. -/
inductive Piece where
  | text (chars : List Char) (quoted : Bool)
  /-- The value of a parameter. -/
  | parameter (name : String) (quoted : Bool)
  /-- A word that takes the place of a parameter where that is unset, or where it is set if
  `whenSet`. If `emptyIsUnset`, an empty value counts as none. -/
  | substitute (name : String) (whenSet emptyIsUnset : Bool) (word : List Piece) (quoted : Bool)

/-- Parts that are expanded together. -/
abbrev Word := List Piece

/-- What is done to a file descriptor. -/
inductive Redirection where
  | read (file : Word)
  | write (descriptor : Nat) (file : Word)
  | append (descriptor : Nat) (file : Word)
  /-- Write where another descriptor writes. -/
  | duplicate (descriptor : Nat) (other : Word)

/-- A command, or commands put together. -/
inductive Script where
  /-- Do nothing. -/
  | nothing
  | simple (assignments : List (String × Word)) (words : List Word)
      (redirections : List Redirection)
  /-- Run a script with redirections; in a shell of its own if `apart`. -/
  | group (body : Script) (apart : Bool) (redirections : List Redirection)
  | pipe (left right : Script)
  | negate (body : Script)
  | both (left right : Script)
  | either (left right : Script)
  | sequence (left right : Script)

/-- A part of a word that is just text without quotes. -/
def Word.bare? : Word → Option String
  | [.text chars false] => some (String.ofList chars)
  | _ => none

end AppManifest.Host.Shell
