import CallerTree.Posix.Expansion
import CallerTree.Posix.Utility.Table
import CallerTree.Posix.Utility.Xargs

/-!
# Programs

What is at a path, and how it is run. Some programs do nothing but run others: they set the scene
for them, or give them their arguments.

## Implementation notes

A program that runs another one goes through the shell that it is in, by a command whose words stand
for themselves.
-/

namespace CallerTree

namespace Posix

namespace Shell

/-- A word that stands for itself. -/
def literalWord (t : Text) : Word := [.text true t]

/-- A command whose words stand for themselves. -/
def literalCommand (line : Nat) (words : List Text) : Statement :=
  .simple line [] (words.map literalWord) []

/-- Runs a program in a copy of the shell, in place of that copy. -/
def runApart (inner : Inner) (words : List Text) : Shell Unit := do
  let line := (← get).line
  inCopy (inner.run [literalCommand line ("exec" :: words)])

/-- Runs a utility on the descriptors of the shell. -/
def runUtility (u : Utility) (args : List Text) (reads : Bool) : Shell Unit := do
  let input ← if reads then readAll 0 else pure {}
  match u { args, input, files := (← get).files } with
  | none => throw .endless
  | some e =>
    elapse e.delay
    modify fun s => { s with files := e.files.getD s.files }
    print 2 e.err
    emit 1 e.out
    setStatus e.status

/-- What a program is. -/
inductive Executable where
  /-- A program that is known by its name. -/
  | known (name : Text)
  /-- A script for the program at a path, with an argument of its own. -/
  | script (interpreter : Text) (option : List Text)
  deriving DecidableEq, Repr

def programFolders : List Text := ["/usr/bin/", "/bin/"]

/-- The name of a program in one of the usual folders. -/
def knownName? (path : Text) : Option Text :=
  (programFolders.filterMap fun dir => Text.strip? path dir).find? Utility.isInstalled

/-- What is at a path. -/
def executable (files : FileSystem) (path : Text) : Except FileError Executable :=
  match knownName? path with
  | some name => .ok (.known name)
  | none =>
    match files.entry true path with
    | .error e => .error e
    | .ok (.file mode data) =>
      if mode &&& 0o111 = 0 then .error .denied
      else match Text.ofUtf8 (data.takeWhile (· ≠ Stream.lineFeed)) with
        | .char '#' :: .char '!' :: line =>
          let line := Text.trim line
          let interpreter := line.takeWhile fun g => g ≠ .char ' ' && g ≠ .char '\t'
          let option := Text.trim (line.drop interpreter.length)
          if interpreter.isEmpty then .error .badFormat
          else .ok (.script interpreter (if option.isEmpty then [] else [option]))
        | _ => .error .badFormat
    | .ok _ => .error .denied

/-- The known program that runs what is at a path, and its arguments. A script is given to its
interpreter, to a limited depth. -/
def resolve (files : FileSystem) : (depth : Nat) → (path : Text) → (args : List Text) →
    Except FileError (Text × List Text)
  | 0, _, _ => .error .tooManyLinks
  | depth + 1, path, args => do
    match ← executable files path with
    | .known name => return (name, args)
    | .script interpreter option =>
      if interpreter = "/usr/bin/env" then
        match option with
        | [name] => if Utility.isInstalled name then return (name, path :: args) else throw .missing
        | _ => throw .missing
      else resolve files depth interpreter (option ++ path :: args)

/-- The number of interpreters in a row that a script may go through. -/
def interpreterLimit : Nat := 5

/-- Why a program cannot be run, if it cannot. -/
def launchError? (files : FileSystem) (name : Text) : Option FileError :=
  if name.any (· = .char '/') then
    match resolve files interpreterLimit name [] with
    | .ok _ => none
    | .error .badFormat => none
    | .error e => some e
  else if Utility.isInstalled name then none else some .missing

/-- The status that stands for a program that cannot be run. -/
def launchStatus : FileError → Nat
  | .missing => 127
  | _ => 126

/-! ### Programs that run others -/

/-- Runs a program, or says why that is impossible; `message` words it. -/
def runOr (inner : Inner) (message : Text → Text) (words : List Text) : Shell Unit := do
  match launchError? (← get).files (words.headD []) with
  | none => runApart inner words
  | some e =>
    print 2 (message (systemText e) ++ "\n")
    setStatus (launchStatus e)

/-- A program that was misused. -/
def misused (name : Text) (message : Option Text) (status : Nat) : Shell Unit := do
  let lead : Text := match message with
    | some m => name ++ ": " ++ m ++ "\n"
    | none => []
  print 2 (lead ++ Utility.seeHelp name ++ "\n")
  setStatus status

/-- The status of a run of several commands, by the status of each. -/
def batchStatus (statuses : List Nat) : Nat :=
  if statuses.any (· ≠ 0) then 123 else 0

/-- Runs commands one after the other. One that cannot run, or that asks for it, ends all. -/
def runBatch (inner : Inner) (isShown : Bool) : List (List Text) → (done : List Nat) → Shell Unit
  | [], done => setStatus (batchStatus done)
  | words :: more, done => do
    let name := words.headD []
    if isShown then print 2 (Text.join " " words ++ "\n")
    match launchError? (← get).files name with
    | some e =>
      print 2 ("xargs: " ++ name ++ ": " ++ systemText e ++ "\n")
      setStatus (launchStatus e)
    | none =>
      inCopy do
        openAs 0 {}
        runApart inner words
      let status := (← get).status
      if status = 255 then
        print 2 ("xargs: " ++ name ++ ": exited with status 255; aborting\n")
        setStatus 124
      else if 128 < status then
        print 2 ("xargs: " ++ name ++ ": terminated by signal " ++ Text.ofNat (status - 128) ++
          "\n")
        setStatus 125
      else runBatch inner isShown more (status :: done)

def xargs (inner : Inner) (args : List Text) : Shell Unit := do
  match Xargs.table.read args with
  | .error e => misused "xargs" (some e) 1
  | .ok o =>
    match Xargs.badNumber? o with
    | some e => misused "xargs" (some e) 1
    | none =>
      match (← readAll 0).all? with
      | none => throw .endless
      | some data =>
        match Xargs.commands o data with
        | .ok commands => runBatch inner (o.has 't') commands []
        | .error e =>
          print 2 ("xargs: " ++ e ++ "\n")
          setStatus 1

/-- Sets variables for programs from words such as `x=1`; gives the words behind them. -/
def assignAll : List Text → Shell (List Text)
  | [] => return []
  | a :: more => do
    match Text.cut? a '=' with
    | some (name, value) =>
      if name.isEmpty then return a :: more
      modify fun s => { s with
        bindings := (name, value) :: s.bindings.filter fun v => v.1 ≠ name
        exported := name :: s.exported }
      assignAll more
    | none => return a :: more

def env (inner : Inner) (args : List Text) : Shell Unit := do
  let table : Utility.OptionTable := {
    plain := "i0", valued := "uC", stopsEarly := true
    long := [("ignore-environment", 'i'), ("unset", 'u'), ("null", '0'), ("chdir", 'C')] }
  match table.read (args.map fun (a : Text) => if a = "-" then "-i" else a) with
  | .error e => misused "env" (some e) 125
  | .ok o =>
    inCopy do
      let gone := o.values 'u'
      modify fun s => { s with
        exported := if o.has 'i' then [] else s.exported.filter fun n => !gone.contains n
        bindings := s.bindings.filter fun v => !gone.contains v.1 }
      match ← assignAll o.operands with
      | [] =>
        for (name, value) in (← get).environment do print 1 (name ++ "=" ++ value ++ "\n")
        setStatus 0
      | words => runOr inner (fun reason => "env: '" ++ words.headD [] ++ "': " ++ reason) words

/-- The programs that run others, by name. -/
def runners : List (Text × (Inner → List Text → Shell Unit)) := [
  ("xargs", xargs), ("env", env),
  ("which", fun _ args => runUtility Utility.which args false)]

end Shell

end Posix

end CallerTree
