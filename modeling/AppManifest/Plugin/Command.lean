import AppManifest.Plugin.Environment
/-!
# Commands

A command is a program with its arguments, the directory that it runs in, and its environment. It
is put together step by step: arguments add up, while a later directory or environment takes the
place of an earlier one.
-/

namespace AppManifest

/-- A program to run. -/
structure Command where
  program : String
  args : List String
  /-- The directory to run in, if not that of the caller. -/
  directory : Option String
  environment : Environment
  deriving Repr

/-- What a command left behind. -/
structure CommandOutput where
  /-- The exit status; none if a signal ended the command. -/
  status : Option Int
  stdout : String
  stderr : String
  deriving DecidableEq, Repr

namespace Command

/-- A program without arguments. -/
def new (program : String) : Command := ⟨program, [], none, .empty⟩

/-- The command with one more argument. -/
def arg (command : Command) (argument : String) : Command :=
  { command with args := command.args ++ [argument] }

/-- The command with more arguments. -/
def withArgs (command : Command) (arguments : List String) : Command :=
  { command with args := command.args ++ arguments }

/-- The command in a directory. -/
def inDirectory (command : Command) (directory : String) : Command :=
  { command with directory := some directory }

/-- The command with an environment. -/
def withEnvironment (command : Command) (environment : Environment) : Command :=
  { command with environment }

end Command

/-- Whether a command ended well: only the status zero says so. -/
def CommandOutput.success (output : CommandOutput) : Bool := output.status == some 0

end AppManifest
