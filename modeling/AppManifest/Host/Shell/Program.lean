import AppManifest.Host.Shell.Printf
import AppManifest.Host.Shell.Session
/-!
# Programs

The programs that a shell can run, those that are part of it among them. A program is given its
arguments, and changes the session.
-/

namespace AppManifest.Host.Shell

/-- A program. -/
abbrev Program := List String → Session → Session

namespace Program

/-- End with a status, and do nothing. -/
def ending (status : Nat) : Program := fun _ session ↦ session.withStatus status

/-- Print the arguments between blanks, with a line break behind them unless the first is `-n`.
Backslashes have a meaning if `escapes`. -/
def echo (escapes : Bool) : Program := fun args session ↦
  let (args, behind) := if args.head? = some "-n" then (args.tail, "") else (args, "\n")
  let text := " ".intercalate args
  let bytes := if escapes then Printf.escaped (text.length + 1) text.toList else Text.bytes text
  (session.write (bytes ++ Text.bytes behind)).withStatus 0

/-- Print a format with arguments. -/
def printf : Program := fun args session ↦
  match args with
  | [] => session.complain (session.shellMessage "printf: usage: printf format [arg ...]") 2
  | format :: args =>
    (session.write (Printf.formatted (args.length + 1) format.toList args)).withStatus 0

/-- Print one file, or the input. -/
def catOne (session : Session) (path : String) : Session :=
  if path = "-" then { session.write session.input with input := [] }
  else
    match (session.files.locate? session.directory path).bind session.files.get? with
    | some (.file content) => session.write content
    | some (.directory _) => session.complain ("cat: " ++ path ++ ": Is a directory") 1
    | none =>
      if path = "/dev/null" then session
      else session.complain ("cat: " ++ path ++ ": No such file or directory") 1

/-- Print files one after the other. -/
def cat : Program := fun args session ↦
  (if args.isEmpty then ["-"] else args).foldl catOne (session.withStatus 0)

/-- Print the names in a directory. -/
def ls : Program := fun args session ↦
  let path := args.headD "."
  match (session.files.locate? session.directory path).bind session.files.get? with
  | some (.file _) => (session.print (path ++ "\n")).withStatus 0
  | some (.directory entries) =>
    let names := (Entries.sorted entries).keys.filter fun name ↦ !name.startsWith "."
    (session.print (String.join (names.map (· ++ "\n")))).withStatus 0
  | none =>
    session.complain ("ls: cannot access '" ++ path ++ "': No such file or directory") 2

/-- Make a directory. -/
def mkdir : Program := fun args session ↦
  let (parents, args) := (args.contains "-p", args.filter (· ≠ "-p"))
  args.foldl (fun session path ↦
    let made :=
      if parents then session.files.makeDirectories? session.directory (parts path)
      else do
        let place ← session.files.locate? session.directory path
        if (session.files.get? place).isSome then none else session.files.put? place Node.empty
    match made with
    | some files => { session with files }
    | none => session.complain ("mkdir: cannot create directory '" ++ path ++ "'") 1)
    (session.withStatus 0)

/-- Make a file that has no content. -/
def touch : Program := fun args session ↦
  args.foldl (fun session path ↦
    match session.files.fileAt? session.directory path with
    | some _ => session
    | none =>
      match session.files.withFile? session.directory path [] with
      | some files => { session with files }
      | none => session.complain ("touch: cannot touch '" ++ path ++ "'") 1)
    (session.withStatus 0)

/-- Go to a directory. -/
def cd : Program := fun args session ↦
  match args with
  | [] => session.withStatus 0
  | path :: _ =>
    match session.files.locate? session.directory path with
    | some place =>
      if session.files.isDirectory place then { session with directory := place, status := 0 }
      else session.complain (session.shellMessage ("cd: can't cd to " ++ path)) 2
    | none => session.complain (session.shellMessage ("cd: can't cd to " ++ path)) 2

/-- End the shell. -/
def exit : Program := fun args session ↦
  match args with
  | [] => { session with ending := some .exited }
  | text :: _ =>
    if text ≠ "" && text.toList.all Char.isDigit then
      { session with status := text.toNat?.getD 0 % 256, ending := some .exited }
    else
      let session := session.complain (session.shellMessage ("exit: Illegal number: " ++ text)) 2
      { session with ending := some .exited }

/-- Send a signal to the shell, the only process that there is. -/
def kill : Program := fun args session ↦
  if args.contains "-0" then session.withStatus 0
  else { session with ending := some .killed }

/-- Make variables visible to programs, and perhaps give them values. -/
def exportNames : Program := fun args session ↦
  args.foldl (fun session arg ↦
    let name := (arg.takeWhile (· ≠ '=')).toString
    let session := { session with exported := name :: session.exported }
    if arg.length = name.length then session
    else
      let value := (arg.drop (name.length + 1)).toString
      { session with bindings := session.bindings.insert name value })
    (session.withStatus 0)

/-- Remove variables. -/
def unset : Program := fun args session ↦
  args.foldl (fun session name ↦ { session with bindings := session.bindings.erase name })
    (session.withStatus 0)

/-- Drop the first argument. -/
def shift : Program := fun _ session ↦
  { session.withStatus 0 with arguments := session.arguments.tail }

/-- Print variables with their values. -/
def env : Program := fun _ session ↦
  (session.print (String.join
    (session.environment.map fun entry ↦ entry.1 ++ "=" ++ entry.2 ++ "\n"))).withStatus 0

/-- Print the values of variables. -/
def printenv : Program := fun args session ↦
  if args.isEmpty then env [] session
  else
    args.foldl (fun session name ↦
      match session.environment.get? name with
      | some value => session.print (value ++ "\n")
      | none => session.withStatus 1)
      (session.withStatus 0)

/-- What is at a path. -/
def nodeAt? (session : Session) (path : String) : Option Node :=
  (session.files.locate? session.directory path).bind session.files.get?

/-- Whether a test with one operand holds; none if there is no such test. -/
def unaryTest? (session : Session) (operator operand : String) : Option Bool :=
  let isFile := match nodeAt? session operand with
    | some (.file _) => true
    | _ => false
  let isDirectory := match nodeAt? session operand with
    | some (.directory _) => true
    | _ => false
  match operator with
  | "-n" => some (operand ≠ "")
  | "-z" => some (operand = "")
  | "-f" => some isFile
  | "-d" => some isDirectory
  | "-e" | "-r" | "-w" => some (isFile || isDirectory)
  | "-x" => some isDirectory
  | "-s" => some (isDirectory || (session.files.fileAt? session.directory operand).any (· ≠ []))
  | _ => none

/-- Whether a comparison holds; none if there is no such comparison. -/
def binaryTest? (left operator right : String) : Option Bool :=
  let (m, n) := (left.toInt?.getD 0, right.toInt?.getD 0)
  match operator with
  | "=" => some (left = right)
  | "!=" => some (left ≠ right)
  | "-eq" => some (m = n)
  | "-ne" => some (m ≠ n)
  | "-lt" => some (m < n)
  | "-le" => some (m ≤ n)
  | "-gt" => some (m > n)
  | "-ge" => some (m ≥ n)
  | _ => none

/-- Whether a condition holds; none if it cannot be read. -/
def condition? (session : Session) : List String → Option Bool
  | [] => some false
  | [text] => some (text ≠ "")
  | "!" :: rest => (condition? session rest).map (!·)
  | [operator, operand] => unaryTest? session operator operand
  | [left, operator, right] => binaryTest? left operator right
  | _ => none

/-- End with the status zero if a condition holds. -/
def test (closing : Bool) : Program := fun args session ↦
  let args := if closing && args.getLast? = some "]" then args.dropLast else args
  match condition? session args with
  | some true => session.withStatus 0
  | some false => session.withStatus 1
  | none => session.complain (session.shellMessage "test: unexpected operator") 2

/-- The programs that are not part of the shell. -/
def standalone : List (String × Program) :=
  [("true", ending 0), ("false", ending 1), ("echo", echo false), ("printf", printf),
    ("cat", cat), ("ls", ls), ("mkdir", mkdir), ("touch", touch), ("env", env),
    ("printenv", printenv), ("test", test false), ("[", test true), ("sleep", ending 0)]

/-- What is part of the shell, also where a program of the same name exists. -/
def ofShell : List (String × Program) :=
  [(":", ending 0), ("echo", echo true), ("cd", cd), ("exit", exit), ("kill", kill),
    ("export", exportNames), ("unset", unset), ("shift", shift)]

end Program

/-- The directories that hold programs. -/
def programDirectories : List String := ["/usr/local/bin", "/usr/bin", "/bin"]

/-- The name of a program in its directory, if a path leads to a directory of programs. -/
def programAt? (path : String) : Option String :=
  (programDirectories.find? fun directory ↦ path.startsWith (join directory "")).map
    fun directory ↦ (path.drop (directory.length + 1)).toString

/-- The program that a shell runs under a name or a path. -/
def findProgram? (name : String) : Option Program :=
  if name.contains '/' then (programAt? name).bind fun base ↦ Program.standalone.lookup base
  else (Program.ofShell.lookup name).or (Program.standalone.lookup name)

end AppManifest.Host.Shell
