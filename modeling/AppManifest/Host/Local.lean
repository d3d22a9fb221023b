import AppManifest.Host.Shell
import AppManifest.Host.System
/-!
# A host with files and a shell

One operating system on which plugins can be run: a directory of files and a few programs, the
shell among them. Paths are relative to the directory. It stands in for the system of a machine
where a host has to do something, and is only one of the systems that a host may run on.
-/

namespace AppManifest

namespace Host

/-- The program that a name stands for, if it is found where the variables say. -/
def program? (bindings : Entries String) (name : String) : Option Shell.Program :=
  let directories := match bindings.get? "PATH" with
    | some path => path.splitOn ":"
    | none => Shell.programDirectories
  let found := fun base ↦
    if base = "sh" then some (Shell.shell name) else Shell.Program.standalone.lookup base
  if name.contains '/' then (Shell.programAt? name).bind found
  else if directories.any (Shell.programDirectories.contains ·) then found name
  else none

/-- The directory that a process runs in. -/
def place? (files : Node) : Option String → Option Place
  | none => some []
  | some directory => (files.locate? [] directory).filter files.isDirectory

/-- The session in which a process starts. -/
def session (files : Node) (place : Place) (process : Process) : Shell.Session where
  files
  directory := place
  bindings := process.bindings
  exported := process.bindings.keys
  name := process.program
  arguments := []
  status := 0
  ending := none
  input := []
  streams := [[], []]
  standardOutput := .stream 0
  standardError := .stream 1

/-- The program that a process runs, and the session in which it starts. -/
def start? (files : Node) (process : Process) : Option (Shell.Program × Shell.Session) :=
  (place? files process.directory).bind fun place ↦
    (program? process.bindings process.program).map fun program ↦
      (program, session files place process)

/-- What a process left behind in its session. -/
def output (session : Shell.Session) : ProcessOutput where
  status := if session.ending = some .killed then none else some session.status
  stdout := session.streams.getD 0 []
  stderr := session.streams.getD 1 []

/-- Change a tree of files if that can be done. -/
def attempt (change : Node → Option Node) : StateM Node Bool := fun files ↦
  match change files with
  | some changed => (true, changed)
  | none => (false, files)

/-- The system of a directory of files and a few programs. -/
def shellSystem : OperatingSystem Node where
  read path files := (files.fileAt? [] path, files)
  makeDirectories path := attempt fun files ↦
    if isAbsolute path then none else files.makeDirectories? [] (parts path)
  write path content := attempt (·.withFile? [] path content)
  run process files :=
    match start? files process with
    | some (program, session) =>
      let after := program process.args session
      (some (output after), after.files)
    | none => (none, files)

end Host

/-- A host on that system. -/
abbrev LocalHost := SystemHost Host.Node

namespace LocalHost

open Host

/-- A host without files. -/
def new : LocalHost := ⟨Node.empty, [("PATH", ":".intercalate Shell.programDirectories)]⟩

/-- Read the file at a path, which must be text. -/
def read (path : String) : HostAction LocalHost String := SystemHost.read shellSystem path

/-- Write the file at a path, and make its directory if need be. -/
def write (path content : String) : HostAction LocalHost Unit :=
  SystemHost.write shellSystem path content

/-- Run a command. -/
def run (command : Command) : HostAction LocalHost CommandOutput :=
  SystemHost.run shellSystem command

end LocalHost

end AppManifest
