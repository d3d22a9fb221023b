import AppManifest.Host.FilePath
import AppManifest.Plugin.Provider
import AppManifest.Text.Position
import AppManifest.Text.Utf8
/-!
# A host on an operating system

A host that passes everything on to the operating system that it runs on. What the system does with
files and processes is a parameter, an `OperatingSystem`; what is said here is what the host makes
of it: which directory a file is put into, which variables a process gets, and what is reported
where the system gives up.
-/

namespace AppManifest

/-- A program to be run to its end, as it is handed to the operating system. -/
structure Process where
  program : String
  args : List String
  /-- The directory to run in, if not that of the caller. -/
  directory : Option String
  /-- All variables of the process. -/
  bindings : Entries String

/-- What a process leaves behind, in bytes. -/
structure ProcessOutput where
  /-- The exit status; none if a signal ended the process. -/
  status : Option Int
  stdout : List UInt8
  stderr : List UInt8

/-- What an operating system does, where `σ` is the state of its files. Whatever the system tries
may change the state, also where it gives up. -/
structure OperatingSystem (σ : Type) where
  /-- The content of a file, if it can be read. -/
  read : (path : String) → StateM σ (Option (List UInt8))
  /-- Make a directory and those above it, unless they exist; whether that worked. -/
  makeDirectories : (path : String) → StateM σ Bool
  /-- Write a file whose directory exists; whether that worked. -/
  write : (path : String) → (content : List UInt8) → StateM σ Bool
  /-- Run a process to its end, if it can be started. -/
  run : Process → StateM σ (Option ProcessOutput)

/-- The state of a host on an operating system: the files, and the variables that its processes
inherit. -/
structure SystemHost (σ : Type) where
  files : σ
  bindings : Entries String

/-- The output of a process as a host reports it. Output that is no text is made into text. -/
def ProcessOutput.captured (output : ProcessOutput) : CommandOutput where
  status := output.status
  stdout := Text.decodeLossy output.stdout
  stderr := Text.decodeLossy output.stderr

namespace SystemHost

open Host

variable {σ : Type}

/-- Have the operating system do something. -/
def ask {α : Type} (action : StateM σ α) : HostAction (SystemHost σ) α :=
  modifyGet fun host ↦
    let (answer, files) := action.run host.files
    (answer, { host with files })

variable (system : OperatingSystem σ)

/-- Read the file at a path, which must be text. -/
def read (path : String) : HostAction (SystemHost σ) String := do
  match (← ask (system.read path)).bind Text.decode? with
  | some content => pure content
  | none => throw (.failed ("failed to read " ++ path))

/-- Make the directory that the file at a path is to be in. -/
def makeParent (path : String) : HostAction (SystemHost σ) Unit := do
  match parent? path with
  | none | some "" => pure ()
  | some parent =>
    if ← ask (system.makeDirectories parent) then pure ()
    else throw (.failed ("failed to create " ++ parent))

/-- Write the file at a path, and make its directory if need be. -/
def write (path content : String) : HostAction (SystemHost σ) Unit := do
  makeParent system path
  if ← ask (system.write path (Text.bytes content)) then pure ()
  else throw (.failed ("failed to write " ++ path))

/-- Run a command with the variables of the host as its environment changes them. -/
def run (command : Command) : HostAction (SystemHost σ) CommandOutput := do
  let bindings := command.environment.apply (← get).bindings
  match ← ask (system.run ⟨command.program, command.args, command.directory, bindings⟩) with
  | some output => pure output.captured
  | none => throw (.failed ("failed to run " ++ command.program))

/-- What the host does for plugins. -/
def host : PluginHost (SystemHost σ) := ⟨read system, write system, run system⟩

end SystemHost

end AppManifest
