import AppManifest.Host.FilePath
import AppManifest.Plugin.Provider
/-!
# A host that records

A host that keeps files in memory and runs nothing: commands are recorded, and each ends as was
settled beforehand.
-/

namespace AppManifest

/-- The files and the commands of a host that runs nothing. -/
structure RecordingHost where
  /-- Contents under the components of paths, the last written first. -/
  files : List (List String × String)
  /-- The commands, in the order in which they were run. -/
  commands : List Command
  /-- How every command ends. -/
  outcome : CommandOutput

namespace RecordingHost

/-- A host that has no files yet. -/
def new (outcome : CommandOutput) : RecordingHost := ⟨[], [], outcome⟩

/-- The content of the file at a path. -/
def read (path : String) : HostAction RecordingHost String := do
  match (← get).files.lookup (Host.components path) with
  | some content => pure content
  | none => throw (.failed ("no such file: " ++ path))

/-- Write the file at a path. -/
def write (path content : String) : HostAction RecordingHost Unit :=
  modify fun host ↦ { host with files := (Host.components path, content) :: host.files }

/-- Record a command. -/
def run (command : Command) : HostAction RecordingHost CommandOutput := do
  modify fun host ↦ { host with commands := host.commands ++ [command] }
  return (← get).outcome

/-- What the host does for plugins. -/
def host : PluginHost RecordingHost := ⟨read, write, run⟩

end RecordingHost

end AppManifest
