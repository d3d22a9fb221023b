import AppManifest.Host.Shell.Program
import AppManifest.Host.Shell.Reader
/-!
# A shell

Running a script in a session. Every command sets the status, on which conditions depend; once
the shell has come to its end nothing more is run.
-/

namespace AppManifest.Host.Shell

namespace Session

/-- The sink of a descriptor. -/
def sink (session : Session) (descriptor : String) : Sink :=
  if descriptor = "1" then session.standardOutput
  else if descriptor = "2" then session.standardError
  else .nowhere

/-- Let a descriptor write to a sink. -/
def redirectTo (session : Session) (descriptor : Nat) (sink : Sink) : Session :=
  if descriptor = 1 then { session with standardOutput := sink }
  else if descriptor = 2 then { session with standardError := sink }
  else session

/-- Open a file for writing, its old content kept or not. -/
def openFile? (session : Session) (path : String) (keep : Bool) : Option (Session × Sink) :=
  if path = "/dev/null" then some (session, .nowhere)
  else do
    let place ← session.files.locate? session.directory path
    let old := if keep then (session.files.content? place).getD [] else []
    let files ← session.files.withFile? session.directory path old
    some ({ session with files }, .file place)

/-- Apply a redirection; the message says why that cannot be done. -/
def redirect (session : Session) : Redirection → Except String Session
  | .read file =>
    let path := session.expandWhole file
    match session.files.fileAt? session.directory path with
    | some content => .ok { session with input := content }
    | none =>
      if path = "/dev/null" then .ok { session with input := [] }
      else .error ("cannot open " ++ path ++ ": No such file")
  | .write descriptor file => openFor descriptor file false
  | .append descriptor file => openFor descriptor file true
  | .duplicate descriptor other =>
    .ok (session.redirectTo descriptor (session.sink (session.expandWhole other)))
where
  /-- Open a file and let a descriptor write to it. -/
  openFor (descriptor : Nat) (file : Word) (keep : Bool) : Except String Session :=
    let path := session.expandWhole file
    match session.openFile? path keep with
    | some (session, sink) => .ok (session.redirectTo descriptor sink)
    | none => .error ("cannot create " ++ path ++ ": Directory nonexistent")

/-- Apply redirections from the left. -/
def redirectAll (session : Session) (redirections : List Redirection) : Except String Session :=
  redirections.foldlM redirect session

/-- Run something under redirections, and take these back behind it. -/
def withRedirections (session : Session) (redirections : List Redirection)
    (run : Session → Session) : Session :=
  match session.redirectAll redirections with
  | .error message => session.complain (session.shellMessage message) 2
  | .ok redirected =>
    let readsFile := redirections.any fun
      | .read _ => true
      | _ => false
    let after := run redirected
    { after with
      standardOutput := session.standardOutput
      standardError := session.standardError
      input := if readsFile then session.input else after.input }

/-- Assign values to variables. -/
def assign (session : Session) (assignments : List (String × Word)) : Session :=
  assignments.foldl
    (fun session (name, word) ↦
      { session with bindings := session.bindings.insert name (session.expandWhole word) })
    session

/-- Run a simple command. Its assignments hold for the program alone, or stay if there is none. -/
def runSimple (session : Session) (assignments : List (String × Word)) (words : List Word) :
    Session :=
  match words.flatMap session.expand with
  | [] => (session.assign assignments).withStatus 0
  | name :: args =>
    match findProgram? name with
    | none => session.complain (session.shellMessage (name ++ ": not found")) 127
    | some program =>
      if assignments.isEmpty then program args session
      else
        let inner := session.assign assignments
        let inner := { inner with exported := assignments.map Prod.fst ++ inner.exported }
        let after := program args inner
        { after with bindings := session.bindings, exported := session.exported }

/-- What stays of a session when a shell of its own has come to its end: the files, the streams,
the input and the status. -/
def afterSubshell (session after : Session) : Session :=
  { session with
    files := after.files, streams := after.streams, input := after.input, status := after.status
    ending := if after.ending = some .killed then after.ending else none }

/-- Run something with its output on a new stream, which becomes the input behind it. -/
def throughPipe (session : Session) (run : Session → Session) : Session :=
  let pipe := session.streams.length
  let after := run { session with
    streams := session.streams ++ [[]], standardOutput := .stream pipe }
  let after := session.afterSubshell after
  { after with input := after.streams.getD pipe [], streams := after.streams.take pipe }

end Session

/-- Run a script in a session. -/
def Script.run : Script → Session → Session
  | .nothing, session => session
  | .simple assignments words redirections, session =>
    if session.ending.isSome then session
    else session.withRedirections redirections fun s ↦ s.runSimple assignments words
  | .group body apart redirections, session =>
    if session.ending.isSome then session
    else
      session.withRedirections redirections fun s ↦
        if apart then s.afterSubshell (body.run s) else body.run s
  | .pipe left right, session =>
    if session.ending.isSome then session
    else
      let fed := session.throughPipe left.run
      if fed.ending.isSome then fed
      else { fed.afterSubshell (right.run fed) with input := session.input }
  | .negate body, session =>
    let after := body.run session
    if after.ending.isSome then after else after.withStatus (if after.status = 0 then 1 else 0)
  | .both left right, session =>
    let after := left.run session
    if after.ending.isSome || after.status ≠ 0 then after else right.run after
  | .either left right, session =>
    let after := left.run session
    if after.ending.isSome || after.status = 0 then after else right.run after
  | .sequence left right, session =>
    let after := left.run session
    if after.ending.isSome then after else right.run after

/-- Run a text as a script. -/
def runText (text : String) (session : Session) : Session :=
  match Script.ofText? text with
  | some script => script.run session
  | none => session.complain (session.shellMessage "Syntax error") 2

/-- The shell as a program: the script behind `-c`, the name of the shell, and the arguments. -/
def shell (name : String) : Program := fun args session ↦
  match args with
  | "-c" :: script :: rest =>
    runText script { session with name := rest.headD name, arguments := rest.tail }
  | _ => session.withStatus 0

end AppManifest.Host.Shell
