import AppManifest.CommandLine.Task
import AppManifest.Document.Source
import AppManifest.Report.Check
import AppManifest.Report.Expansion
import AppManifest.Report.Info
/-!
# Outcomes of tasks

What a task prints and the status it ends with, given the file that it asks for. Zero says that
all went well, one that the document cannot be used or is not valid, two that the arguments were
not understood.
-/

namespace AppManifest.CommandLine

/-- What is printed, and the exit status. -/
structure Outcome where
  status : Nat
  stdout : String
  stderr : String
  deriving DecidableEq, Repr

/-- The file that a task reads. -/
def Task.file? : Task → Option String
  | .check file | .info file | .resolve file _ _ => some file
  | .version | .help | .completions _ => none

/-- A file that was asked for. -/
structure OpenedFile where
  /-- Its path as it was given. -/
  path : String
  /-- Its absolute path without detours. -/
  canonicalPath : String
  content : Option (List UInt8)

/-- How the program is used. -/
def usage : String :=
  "Usage: faasit [-v] check|info [--ir FILE]\n" ++
  "       faasit [-v] resolve [--ir FILE] [--expand] [--pretty]\n" ++
  "       faasit completions bash|elvish|fish|powershell|zsh\n"

/-- The completion of the first word of a command line, for a shell. -/
def completionText (shell : CompletionShell) : String :=
  let words := " ".intercalate (Verb.all.map Verb.name)
  match shell with
  | .bash => "complete -W '" ++ words ++ "' faasit\n"
  | .zsh => "compctl -k '(" ++ words ++ ")' faasit\n"
  | .fish => "complete -c faasit -f -a '" ++ words ++ "'\n"
  | .elvish =>
    "set edit:completion:arg-completer[faasit] = \x7b|@args| put " ++ words ++ " \x7d\n"
  | .powershell =>
    "Register-ArgumentCompleter -Native -CommandName faasit -ScriptBlock \x7b '" ++ words ++
      "' -split ' ' \x7d\n"

namespace Outcome

/-- Print a text, and all went well. -/
def printed (text : String) : Outcome := ⟨0, text, ""⟩

/-- The arguments were not understood. -/
def misused : Outcome := ⟨2, "", usage⟩

/-- The document cannot be used. -/
def refused (e : Error) : Outcome :=
  ⟨1, "", e.message ++ "\n" ++ (e.help?.map (· ++ "\n")).getD ""⟩

/-- Print the lines of a report. -/
def ofLines (status : Nat) (lines : List Report.Line) : Outcome :=
  ⟨status, String.join (lines.map (·.printed)), String.join (lines.map (·.warned))⟩

/-- What a check leads to. -/
def ofCheck (file : OpenedFile) : Checked Outcome := do
  let source ← Source.ofContent file.path file.content
  let report ← source.document.check file.path
  .ok (ofLines (if report.isValid then 0 else 1) report.lines)

/-- What a summary leads to. -/
def ofInfo (file : OpenedFile) : Checked Outcome := do
  let source ← Source.ofContent file.path file.content
  let report ← source.document.info file.canonicalPath
  .ok (ofLines 0 report.lines)

/-- What printing the application leads to. -/
def ofResolve (file : OpenedFile) (expanded pretty : Bool) : Checked Outcome := do
  let source ← Source.ofContent file.path file.content
  let text ← source.document.applicationText expanded pretty
  .ok (printed (text ++ "\n"))

/-- The outcome, or a refusal if there was an error. -/
def orRefused : Checked Outcome → Outcome
  | .ok outcome => outcome
  | .error e => refused e

end Outcome

/-- Do a task, given how a file is opened. -/
def Task.run (openFile : String → OpenedFile) : Task → Outcome
  | .version => .printed "faasit 0.1.0\n"
  | .help => .printed usage
  | .completions shell => .printed (completionText shell)
  | .check file => .orRefused (Outcome.ofCheck (openFile file))
  | .info file => .orRefused (Outcome.ofInfo (openFile file))
  | .resolve file expanded pretty => .orRefused (Outcome.ofResolve (openFile file) expanded pretty)

/-- Do what the arguments ask for. -/
def run (openFile : String → OpenedFile) (args : List String) : Outcome :=
  match readTask args with
  | some task => task.run openFile
  | none => .misused

end AppManifest.CommandLine
