import AppManifest.Host.Shell.Script
/-!
# Reading shell scripts

A script is cut into words and operators, and these are read by descent: sequences of conditions
of pipelines of commands. What cannot be read at all gives nothing.
-/

namespace AppManifest.Host.Shell

/-- A word or an operator. -/
inductive Token where
  | word (pieces : Word)
  | operator (text : String)
  /-- An operator in front of a file or a descriptor, with the descriptor that it changes. -/
  | redirect (descriptor : Option Nat) (operator : String)

/-- Where parts of a word stand. -/
inductive Setting where
  | bare
  | quotes
  | braces (quoted : Bool)

/-- Whether parts that stand somewhere are quoted. -/
def Setting.isQuoted : Setting → Bool
  | .bare => false
  | .quotes => true
  | .braces quoted => quoted

/-- The characters that end a word. -/
def endsWord (c : Char) : Bool := " \t\n;&|<>()".toList.contains c

/-- Whether a character ends the parts that stand somewhere. -/
def Setting.endsAt (setting : Setting) (c : Char) : Bool :=
  match setting with
  | .bare => endsWord c
  | .quotes => c = '"'
  | .braces _ => c = '\x7d'

/-- Whether a character may stand in a name. -/
def isNameChar (c : Char) : Bool := c.isAlphanum || c = '_'

/-- The name of a parameter at the start of a text: digits, a name, or a single mark. -/
def parameterName? (cs : List Char) : Option (String × List Char) :=
  match cs with
  | [] => none
  | c :: rest =>
    if c.isAlpha || c = '_' then
      some (String.ofList (cs.takeWhile isNameChar), cs.dropWhile isNameChar)
    else if c.isDigit || "@*#?$!".toList.contains c then some (String.singleton c, rest)
    else none

/-- The characters that a backslash takes the meaning from. -/
def escapable (setting : Setting) (c : Char) : Bool :=
  !setting.isQuoted || "$\"\\\n".toList.contains c || (setting.endsAt c)

mutual

/-- Read parts up to the end of the place where they stand. -/
def pieces : Nat → Setting → List Char → Option (Word × List Char)
  | 0, _, _ => none
  | fuel + 1, setting, cs =>
    match cs with
    | [] =>
      match setting with
      | .bare => some ([], [])
      | _ => none
    | c :: rest =>
      if setting.endsAt c then some ([], cs)
      else do
        let (piece, cs) ← piece fuel setting c rest
        let (more, cs) ← pieces fuel setting cs
        some (piece ++ more, cs)

/-- Read one part that begins with a character. -/
def piece : Nat → Setting → Char → List Char → Option (Word × List Char)
  | 0, _, _, _ => none
  | fuel + 1, setting, c, rest =>
    let quoted := setting.isQuoted
    if c = '\\' then
      match rest with
      | [] => some ([.text [c] true], [])
      | d :: rest =>
        if d = '\n' then some ([], rest)
        else if escapable setting d then some ([.text [d] true], rest)
        else some ([.text [c, d] true], rest)
    else if c = Char.ofNat 39 && !quoted then
      match rest.dropWhile (· ≠ c) with
      | [] => none
      | _ :: after => some ([.text (rest.takeWhile (· ≠ c)) true], after)
    else if c = '"' then
      match pieces fuel .quotes rest with
      | some (inner, _ :: after) => some (.text [] true :: inner, after)
      | _ => none
    else if c = '$' then dollar fuel quoted rest
    else some ([.text [c] quoted], rest)

/-- Read what follows a dollar sign. -/
def dollar : Nat → Bool → List Char → Option (Word × List Char)
  | 0, _, _ => none
  | fuel + 1, quoted, cs =>
    match cs with
    | '\x7b' :: inner => do
      let (name, cs) ← parameterName? inner
      match cs with
      | '\x7d' :: after => some ([.parameter name quoted], after)
      | ':' :: '-' :: cs => substitute fuel name false true quoted cs
      | ':' :: '+' :: cs => substitute fuel name true true quoted cs
      | '-' :: cs => substitute fuel name false false quoted cs
      | '+' :: cs => substitute fuel name true false quoted cs
      | _ => none
    | _ =>
      match parameterName? cs with
      | some (name, after) => some ([.parameter name quoted], after)
      | none => some ([.text ['$'] quoted], cs)

/-- Read the word that takes the place of a parameter, and the brace behind it. -/
def substitute : Nat → String → Bool → Bool → Bool → List Char → Option (Word × List Char)
  | 0, _, _, _, _, _ => none
  | fuel + 1, name, whenSet, emptyIsUnset, quoted, cs =>
    match pieces fuel (.braces quoted) cs with
    | some (word, _ :: after) => some ([.substitute name whenSet emptyIsUnset word quoted], after)
    | _ => none

end

/-- The operator at the start of a text. -/
def operator? : List Char → Option (Token × List Char)
  | '&' :: '&' :: rest => some (.operator "&&", rest)
  | '|' :: '|' :: rest => some (.operator "||", rest)
  | '>' :: '>' :: rest => some (.redirect none ">>", rest)
  | '>' :: '&' :: rest => some (.redirect none ">&", rest)
  | '<' :: '&' :: rest => some (.redirect none "<&", rest)
  | '>' :: rest => some (.redirect none ">", rest)
  | '<' :: rest => some (.redirect none "<", rest)
  | c :: rest =>
    if ";|&()\n".toList.contains c then some (.operator (String.singleton c), rest) else none
  | [] => none

/-- Cut a script into words and operators. -/
def tokens : Nat → List Char → Option (List Token)
  | 0, _ => none
  | fuel + 1, cs =>
    match cs.dropWhile fun c ↦ c = ' ' || c = '\t' with
    | [] => some []
    | '#' :: rest => tokens fuel (rest.dropWhile (· ≠ '\n'))
    | c :: rest =>
      let digits := (c :: rest).takeWhile (·.isDigit)
      match operator? ((c :: rest).drop digits.length) with
      | some (.redirect _ op, after) => do
        let descriptor := if digits.isEmpty then none else (String.ofList digits).toNat?
        let more ← tokens fuel after
        some (.redirect descriptor op :: more)
      | _ =>
        match operator? (c :: rest) with
        | some (token, after) => (tokens fuel after).map (token :: ·)
        | none => do
          let (word, after) ← pieces (2 * (c :: rest).length + 2) .bare (c :: rest)
          let more ← tokens fuel after
          some (.word word :: more)

/-- The variable that a word assigns to, and the value. -/
def assignment? : Word → Option (String × Word)
  | word =>
    let chars := word.takeWhile fun
      | .text [_] false => true
      | _ => false
    let text := chars.flatMap fun
      | .text cs _ => cs
      | _ => []
    let name := text.takeWhile isNameChar
    match text.drop name.length, name with
    | '=' :: _, c :: _ =>
      if c.isDigit then none else some (String.ofList name, word.drop (name.length + 1))
    | _, _ => none

/-- Join neighbouring parts of text that are quoted alike. -/
def joinText : Word → Word
  | [] => []
  | piece :: rest =>
    match piece, joinText rest with
    | .text cs q, .text ds r :: more =>
      if q = r then .text (cs ++ ds) q :: more else .text cs q :: .text ds r :: more
    | piece, more => piece :: more

/-- Whether a token is a word of its own with a meaning, such as a brace. -/
def isReserved (text : String) : Token → Bool
  | .word word => (joinText word).bare? == some text
  | _ => false

/-- Go past line breaks. -/
def skipLines (ts : List Token) : List Token :=
  ts.dropWhile fun
    | .operator "\n" => true
    | _ => false

/-- The redirection of a descriptor, or of the usual one, by an operator. -/
def redirection (descriptor : Option Nat) (op : String) (file : Word) : Redirection :=
  match op with
  | "<" => .read file
  | ">>" => .append (descriptor.getD 1) file
  | ">&" => .duplicate (descriptor.getD 1) file
  | "<&" => .duplicate (descriptor.getD 0) file
  | _ => .write (descriptor.getD 1) file

/-- Read redirections. -/
def redirections : List Token → List Redirection × List Token
  | .redirect descriptor op :: .word file :: rest =>
    let (more, rest) := redirections rest
    (redirection descriptor op (joinText file) :: more, rest)
  | ts => ([], ts)

/-- Read the parts of a simple command: assignments, words, redirections. -/
def simpleParts : List Token → List (String × Word) → List Word → List Redirection →
    Option (Script × List Token)
  | .word word :: rest, assignments, words, reds =>
    match (if words.isEmpty then assignment? word else none) with
    | some (name, value) => simpleParts rest (assignments ++ [(name, joinText value)]) words reds
    | none => simpleParts rest assignments (words ++ [joinText word]) reds
  | .redirect descriptor op :: .word file :: rest, assignments, words, reds =>
    simpleParts rest assignments words (reds ++ [redirection descriptor op (joinText file)])
  | .redirect _ _ :: _, _, _, _ => none
  | ts, [], [], [] => if ts.isEmpty then none else none
  | ts, assignments, words, reds => some (.simple assignments words reds, ts)

mutual

/-- Read a sequence of conditions. -/
def sequenceFrom : Nat → List Token → Option (Script × List Token)
  | 0, _ => none
  | fuel + 1, ts =>
    let ts := skipLines ts
    match ts with
    | [] => some (.nothing, [])
    | .operator ")" :: _ => some (.nothing, ts)
    | first :: _ =>
      if isReserved "\x7d" first then some (.nothing, ts)
      else do
        let (left, ts) ← conditionFrom fuel ts
        match ts with
        | .operator ";" :: rest | .operator "\n" :: rest => do
          let (right, ts) ← sequenceFrom fuel rest
          some (.sequence left right, ts)
        | _ => some (left, ts)

/-- Read a condition: pipelines between conjunctions and disjunctions, from the left. -/
def conditionFrom : Nat → List Token → Option (Script × List Token)
  | 0, _ => none
  | fuel + 1, ts => do
    let (first, ts) ← pipelineFrom fuel ts
    conditionAfter fuel first ts

/-- Read the rest of a condition. -/
def conditionAfter : Nat → Script → List Token → Option (Script × List Token)
  | 0, _, _ => none
  | fuel + 1, left, ts =>
    match ts with
    | .operator "&&" :: rest => do
      let (right, ts) ← pipelineFrom fuel (skipLines rest)
      conditionAfter fuel (.both left right) ts
    | .operator "||" :: rest => do
      let (right, ts) ← pipelineFrom fuel (skipLines rest)
      conditionAfter fuel (.either left right) ts
    | _ => some (left, ts)

/-- Read commands between pipes. -/
def pipelineFrom : Nat → List Token → Option (Script × List Token)
  | 0, _ => none
  | _ + 1, [] => none
  | fuel + 1, first :: rest =>
    if isReserved "!" first then do
      let (body, ts) ← pipelineFrom fuel rest
      some (.negate body, ts)
    else do
      let (left, ts) ← commandFrom fuel (first :: rest)
      match ts with
      | .operator "|" :: rest => do
        let (right, ts) ← pipelineFrom fuel (skipLines rest)
        some (.pipe left right, ts)
      | _ => some (left, ts)

/-- Read a command. -/
def commandFrom : Nat → List Token → Option (Script × List Token)
  | 0, _ => none
  | _ + 1, [] => none
  | fuel + 1, first :: rest =>
    match first with
    | .operator "(" => do
      let (body, ts) ← sequenceFrom fuel rest
      match ts with
      | .operator ")" :: rest =>
        let (reds, ts) := redirections rest
        some (.group body true reds, ts)
      | _ => none
    | _ =>
      if isReserved "\x7b" first then do
        let (body, ts) ← sequenceFrom fuel rest
        match ts with
        | closing :: rest =>
          if isReserved "\x7d" closing then
            let (reds, ts) := redirections rest
            some (.group body false reds, ts)
          else none
        | [] => none
      else simpleParts (first :: rest) [] [] []

end

/-- Read a text as a script. -/
def Script.ofText? (text : String) : Option Script := do
  let cs := text.toList
  let ts ← tokens (cs.length + 1) cs
  match ← sequenceFrom (4 * ts.length + 4) ts with
  | (script, []) => some script
  | _ => none

end AppManifest.Host.Shell
