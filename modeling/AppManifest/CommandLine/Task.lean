/-!
# Tasks

What the program can be asked to do, and how its arguments say so. Arguments are read from the
left, and the first one that does not fit makes them all a usage error; a request for help or for
the version ends the reading at once.
-/

namespace AppManifest.CommandLine

/-- The shells for which completions can be written. -/
inductive CompletionShell where
  | bash
  | elvish
  | fish
  | powershell
  | zsh
  deriving DecidableEq, Repr

/-- What the program is asked to do. -/
inductive Task where
  | version
  | help
  /-- Check the document in a file. -/
  | check (file : String)
  /-- Summarise the document in a file. -/
  | info (file : String)
  /-- Print the application of the document in a file. -/
  | resolve (file : String) (expanded pretty : Bool)
  /-- Write completions for a shell. -/
  | completions (shell : CompletionShell)
  deriving DecidableEq, Repr

/-- The first word of a task. -/
inductive Verb where
  | check
  | info
  | resolve
  | completions
  deriving DecidableEq, Repr

/-- The file that is read unless another is named. -/
def defaultFile : String := "faasit.ir.json"

namespace CompletionShell

/-- The word for a shell. -/
def name : CompletionShell → String
  | bash => "bash"
  | elvish => "elvish"
  | fish => "fish"
  | powershell => "powershell"
  | zsh => "zsh"

/-- The shell that a word stands for. -/
def ofName? (word : String) : Option CompletionShell :=
  [bash, elvish, fish, powershell, zsh].find? (·.name == word)

end CompletionShell

namespace Verb

/-- Every verb. -/
def all : List Verb := [check, info, resolve, completions]

/-- The word for a verb. -/
def name : Verb → String
  | check => "check"
  | info => "info"
  | resolve => "resolve"
  | completions => "completions"

/-- The verb that a word stands for. -/
def ofName? (word : String) : Option Verb := all.find? (·.name == word)

/-- Whether the task reads a document. -/
def readsDocument : Verb → Bool
  | completions => false
  | _ => true

end Verb

/-- What the arguments of a task have said so far. -/
structure Draft where
  verb : Verb
  file : Option String
  expanded : Bool
  pretty : Bool
  shell : Option CompletionShell

namespace Draft

/-- Nothing but a verb. -/
def ofVerb (verb : Verb) : Draft := ⟨verb, none, false, false, none⟩

/-- Name the file, which may be done once. -/
def withFile? (draft : Draft) (file : String) : Option Draft :=
  if draft.verb.readsDocument && draft.file.isNone && file ≠ "" then
    some { draft with file := some file }
  else none

/-- Set a flag of the task, which may be done once. -/
def withFlag? (draft : Draft) (flag : String) : Option Draft :=
  if draft.verb ≠ .resolve then none
  else if flag = "--pretty" && !draft.pretty then some { draft with pretty := true }
  else if flag = "--expand" && !draft.expanded then some { draft with expanded := true }
  else none

/-- Name the shell, which may be done once. -/
def withShell? (draft : Draft) (word : String) : Option Draft :=
  if draft.verb = .completions && draft.shell.isNone then
    (CompletionShell.ofName? word).map fun shell ↦ { draft with shell := some shell }
  else none

/-- The task, if nothing is missing. -/
def task? (draft : Draft) : Option Task :=
  let file := draft.file.getD defaultFile
  match draft.verb with
  | .check => some (.check file)
  | .info => some (.info file)
  | .resolve => some (.resolve file draft.expanded draft.pretty)
  | .completions => draft.shell.map .completions

end Draft

/-- What is to be done behind an argument. -/
inductive Next where
  | go (draft : Draft)
  /-- Take the next argument as the file. -/
  | file
  | stop (task : Task)

/-- Read the letters of an argument such as `-vi`. -/
def readLetters (draft : Draft) : List Char → Option Next
  | [] => some (.go draft)
  | 'v' :: rest => readLetters draft rest
  | 'h' :: _ => some (.stop .help)
  | 'i' :: rest =>
    match rest with
    | [] => if draft.verb.readsDocument && draft.file.isNone then some .file else none
    | '=' :: file => (draft.withFile? (String.ofList file)).map .go
    | file => (draft.withFile? (String.ofList file)).map .go
  | _ => none

/-- Read an argument that begins with a dash. -/
def readOption (draft : Draft) (arg : String) : Option Next :=
  match arg.toList with
  | '-' :: '-' :: 'i' :: 'r' :: '=' :: file => (draft.withFile? (String.ofList file)).map .go
  | '-' :: '-' :: _ =>
    if arg = "--ir" then
      if draft.verb.readsDocument && draft.file.isNone then some .file else none
    else if arg = "--verbose" then some (.go draft)
    else if arg = "--help" then some (.stop .help)
    else (draft.withFlag? arg).map .go
  | _ => readLetters draft (arg.toList.drop 1)

/-- Whether an argument begins with a dash; one that is nothing else does not count. -/
def isOption (arg : String) : Bool := arg.startsWith "-" && arg ≠ "-"

/-- Read the arguments behind the verb. Behind `--` none is an option. -/
def readArguments : Bool → Draft → List String → Option Task
  | _, draft, [] => draft.task?
  | plain, draft, arg :: rest =>
    if plain || !isOption arg then do
      let draft ← draft.withShell? arg
      readArguments plain draft rest
    else if arg = "--" then readArguments true draft rest
    else
      match readOption draft arg with
      | none => none
      | some (.stop task) => some task
      | some (.go draft) => readArguments false draft rest
      | some .file =>
        match rest with
        | file :: rest =>
          if isOption file then none
          else do
            let draft ← draft.withFile? file
            readArguments false draft rest
        | [] => none

/-- Read letters in front of the verb. -/
def readFirstLetters : List Char → Option (Option Task)
  | [] => some none
  | 'v' :: rest => readFirstLetters rest
  | 'h' :: _ => some (some .help)
  | 'V' :: _ => some (some .version)
  | _ => none

/-- Read arguments up to the verb, and what follows it. -/
def readTask : List String → Option Task
  | [] => none
  | arg :: rest =>
    if arg = "--version" then some .version
    else if arg = "--help" then some .help
    else if arg = "--verbose" then readTask rest
    else if arg.startsWith "--" then none
    else if isOption arg then
      match readFirstLetters (arg.toList.drop 1) with
      | none => none
      | some (some task) => some task
      | some none => readTask rest
    else if arg = "help" then
      match rest with
      | [] => some .help
      | [word] => if word = "help" || (Verb.ofName? word).isSome then some .help else none
      | _ => none
    else
      match Verb.ofName? arg with
      | some verb => readArguments false (.ofVerb verb) rest
      | none => none

end AppManifest.CommandLine
