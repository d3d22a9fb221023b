import AppManifest.CommandLine.Outcome
/-!
# The program

Reads the file that the arguments ask for, prints what becomes of it, and ends with its status.
-/

open AppManifest.CommandLine

/-- Open the file at a path. -/
def openFile (path : String) : IO OpenedFile := do
  let content : Option ByteArray ← try pure (some (← IO.FS.readBinFile path)) catch _ => pure none
  let canonicalPath ← try pure (← IO.FS.realPath path).toString catch _ => pure path
  return ⟨path, canonicalPath, content.map (·.data.toList)⟩

/-- The command line. -/
def main (args : List String) : IO UInt32 := do
  let task := readTask args
  let file ← openFile ((task.bind Task.file?).getD defaultFile)
  let outcome := (task.map (Task.run fun _ ↦ file)).getD Outcome.misused
  (← IO.getStdout).putStr outcome.stdout
  (← IO.getStderr).putStr outcome.stderr
  return UInt32.ofNat outcome.status
