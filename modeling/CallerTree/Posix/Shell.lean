import CallerTree.Posix.Program
import CallerTree.Posix.ScriptReader

/-!
# Running scripts

The commands of a script run one after the other in a shell. A command sets the status of the shell;
some of them leave loops, functions or the shell itself.

## Contract

A script that runs without end leaves the shell by `Leave.endless`, with what it wrote until then.

## Implementation notes

`Shell.inner` takes a depth of nesting, and a loop has a bound on its rounds. Both are far above
what a script that ends within its time can reach.
-/

namespace CallerTree

namespace Posix

namespace Shell

/-- The rounds after which a loop counts as endless. -/
def roundLimit : Nat := 300000

/-! ### Redirections -/

/-- The message about a file that cannot be opened. -/
def openMessage (path : Text) (isReading : Bool) (e : FileError) : Text :=
  (if isReading then ("cannot open " : Text) else "cannot create ") ++ path ++ ": " ++
    match e, isReading with
    | .missing, true => ("No such file" : Text)
    | .missing, false => "Directory nonexistent"
    | e, _ => systemText e

/-- Opens a file for writing. -/
def openForWriting (files : FileSystem) (path : Text) (isEmptied : Bool) :
    Except FileError (FileSystem × Channel) := do
  if path = "/dev/null" then return (files, .null)
  let place ← files.locate true path
  match place.entry with
  | some (.file mode data) =>
    let files := if isEmptied then files.setAt place.components (some (.file mode [])) else
      files.setAt place.components (some (.file mode data))
    return (files, .file place.components)
  | some _ => throw .isFolder
  | none => return (files.setAt place.components (some (.file 0o644 [])), .file place.components)

/-- Carries out a redirection; tells whether it could be done. -/
def redirect (inner : Inner) : Redirection → Shell Bool
  | .mk descriptor direction target => do
    let path ← textOf inner target
    let s ← get
    let setChannel := fun (c : Channel) => modify fun (s : State) =>
      { s with channels := (descriptor, c) :: s.channels }
    match direction with
    | .duplicating =>
      match Text.readNat? path with
      | some n =>
        setChannel (← channel n)
        return true
      | none =>
        if path = "-" then
          setChannel .null
          return true
        complain ("Bad fd number")
        return false
    | .document =>
      openAs descriptor (.ofText path)
      return true
    | .reading =>
      match openSource s.files {} path with
      | .ok source =>
        openAs descriptor source
        return true
      | .error e =>
        complain (openMessage path true e)
        return false
    | direction =>
      if path = "/dev/stdout" then
        setChannel (← channel 1)
        return true
      if path = "/dev/stderr" then
        setChannel (← channel 2)
        return true
      match openForWriting s.files path (direction = .writing) with
      | .ok (files, c) =>
        modify fun s => { s with files }
        setChannel c
        return true
      | .error e =>
        complain (openMessage path false e)
        return false

/-- Runs under redirections. If one of them fails nothing runs. -/
def redirected (inner : Inner) (rs : List Redirection) (x : Shell Unit) : Shell Unit := do
  let old := (← get).channels
  let restore : Shell Unit := modify fun s => { s with channels := old }
  let mut isOpen := true
  for r in rs do
    if isOpen then isOpen ← redirect inner r
  try
    if isOpen then x else setStatus 2
    restore
  catch e =>
    restore
    throw e

/-! ### Scripts in scripts -/

/-- Runs a script line by line. -/
def runProgram (inner : Inner) (p : Program) : Shell Unit := do
  for line in p.lines do inner.run line
  match p.fault with
  | some (line, fault) =>
    modify fun s => { s with line }
    abort fault.text
  | none => return

/-- What is done when the shell ends. -/
def atExit (inner : Inner) : Shell Unit := do
  match (← get).traps.lookup (Text.ofString "EXIT") with
  | some action =>
    modify fun s => { s with traps := s.traps.filter fun t => t.1 ≠ "EXIT" }
    let status := (← get).status
    runProgram inner (Program.ofText action)
    setStatus status
  | none => return

/-- Runs a script as a shell of its own. -/
def runScript (inner : Inner) (t : Text) : Shell Unit := do
  try runProgram inner (Program.ofText t)
  catch e => match e with
    | .exit n | .return n => setStatus n
    | .break _ | .continue _ => pure ()
    | e => throw e
  try atExit inner
  catch e => match e with
    | .exit n => setStatus n
    | e => throw e

/-- A new shell with a script, in place of the current one. -/
def newShell (inner : Inner) (name : Text) (arguments : List Text) (script : Text) :
    Shell Unit := do
  modify fun s => { s with
    name, arguments, functions := [], line := 1, pid := s.pid + 100, isStrict := false
    isChecked := false, isTested := false, loops := 0, status := 0
    bindings := s.bindings.filter fun v => s.exported.contains v.1
    traps := s.traps.filter fun t => t.2.isEmpty }
  runScript inner script

/-! ### Programs -/

/-- Runs the script of a file, or the one given on the command line. -/
def shellProgram (inner : Inner) : (args : List Text) → Shell Unit
  | [.char '-', .char 'c'] :: script :: rest =>
    newShell inner (rest.headD "sh") rest.tail script
  | [.char '-', .char 'e', .char 'c'] :: script :: rest =>
    newShell inner (rest.headD "sh") rest.tail ("set -e;" ++ script)
  | [.char '-', .char 'c'] :: [] => do
    print 2 "sh: 0: -c requires an argument\n"
    throw (.exit 2)
  | path :: rest => do
    match openSource (← get).files {} path with
    | .ok s => newShell inner path rest (Text.ofUtf8 s.data)
    | .error _ =>
      print 2 ("sh: 0: cannot open " ++ path ++ ": No such file\n")
      throw (.exit 2)
  | [] => do newShell inner "sh" [] (Text.ofUtf8 (← readAll 0).data)

/-- Runs a program that is known by its name. -/
def knownProgram (inner : Inner) (name : Text) (args : List Text) : Shell Unit := do
  if name = "sh" ∨ name = "dash" ∨ name = "bash" then shellProgram inner args
  else match Utility.table.lookup name, runners.lookup name with
    | some u, _ => runUtility u args (Utility.readsInput name)
    | none, some r => r inner args
    | none, none => setStatus 0

/-- What a shell says about a program that a signal has ended. -/
def obituary (signal : Nat) : Text :=
  match signal with
  | 1 => "Hangup\n"
  | 3 => "Quit\n"
  | 6 => "Aborted\n"
  | 9 => "Killed\n"
  | 10 => "User defined signal 1\n"
  | 12 => "User defined signal 2\n"
  | 14 => "Alarm clock\n"
  | 15 => "Terminated\n"
  | _ => []

/-- Runs a program in a copy of the shell. -/
def runKnown (inner : Inner) (name : Text) (args : List Text) : Shell Unit := do
  elapse programTime
  try inCopy (knownProgram inner name args)
  catch e => match e with
    | .killed n =>
      print 2 (obituary n)
      setStatus (128 + n)
    | e => throw e

/-- Runs a program by the name or path that a script gives; `lead` comes first in messages. -/
def runProgramNamed (inner : Inner) (lead name : Text) (args : List Text) : Shell Unit := do
  let isPath := name.any (· = .char '/')
  let files := (← get).files
  let found := if isPath then resolve files interpreterLimit name args
    else if Utility.isInstalled name then .ok (name, args) else .error .missing
  match found with
  | .ok (name, args) => runKnown inner name args
  | .error .missing =>
    complain (lead ++ name ++ ": not found")
    setStatus 127
  | .error .badFormat => runKnown inner "sh" (name :: args)
  | .error _ =>
    complain (lead ++ name ++ ": Permission denied")
    setStatus 126

/-! ### Signals -/

def signals : List (Text × Nat) := [
  ("HUP", 1), ("INT", 2), ("QUIT", 3), ("ABRT", 6), ("KILL", 9), ("USR1", 10), ("USR2", 12),
  ("PIPE", 13), ("ALRM", 14), ("TERM", 15), ("CHLD", 17), ("CONT", 18), ("STOP", 19)]

/-- The number of a signal given by name or number. -/
def signal? (t : Text) : Option Nat :=
  (Text.readNat? t).or (signals.lookup t)

def signalName (n : Nat) : Text :=
  if n = 0 then "EXIT" else ((signals.find? (·.2 = n)).map (·.1)).getD (Text.ofNat n)

/-- A signal to the shell itself. -/
def receive (inner : Inner) (n : Nat) : Shell Unit := do
  if n = 0 ∨ n = 17 ∨ n = 18 then return
  let traps := (← get).traps
  let action? := if n = 9 ∨ n = 19 then none else traps.lookup (signalName n)
  match action? with
  | some action => if action.isEmpty then return else runProgram inner (Program.ofText action)
  | none => if n = 19 then throw .endless else throw (.killed n)

def kill (inner : Inner) (args : List Text) : Shell Unit := do
  let (n, pids) := match args with
    | [.char '-', .char 's'] :: name :: pids => ((signal? name), pids)
    | (.char '-' :: name) :: pids => (signal? name, pids)
    | pids => (some 15, pids)
  if args.isEmpty then
    abort ("kill: Usage: kill [-s sigspec | -signum | -sigspec] [pid | job]... or\n" ++
      "kill -l [exitstatus]")
  match n with
  | none =>
    complain "kill: bad signal"
    setStatus 2
  | some n =>
    for pid in pids do
      let s ← get
      match Text.readNat? pid with
      | some p =>
        if p = s.pid then
          setStatus 0
          receive inner n
        else if s.pid < p && p ≤ s.pid + s.jobs.length then setStatus 0
        else
          complain "kill: No such process\n"
          setStatus 1
      | none =>
        complain ("kill: Illegal number: " ++ pid)
        setStatus 2

def trap : List Text → Shell Unit
  | [] => setStatus 0
  | [signal] => trapAll none [signal]
  | action :: signals => trapAll (if action = "-" then none else some action) signals
where
  trapAll (action : Option Text) (names : List Text) : Shell Unit := do
    for t in names do
      match signal? (if t = "EXIT" then "0" else t) with
      | none =>
        complain ("trap: " ++ t ++ ": bad trap")
        setStatus 1
        return
      | some n =>
        let name := signalName n
        modify fun s => { s with
          traps := (action.map fun a => (name, a)).toList ++ s.traps.filter fun e => e.1 ≠ name }
    setStatus 0

/-! ### Commands of the shell -/

def changeDirectory (args : List Text) : Shell Unit := do
  let s ← get
  let path := args.headD ((s.bindings.lookup (Text.ofString "HOME")).getD "/")
  match s.files.locate true path with
  | .ok ⟨components, some (.folder _)⟩ =>
    set { s with files := { s.files with workingDirectory := components }, status := 0 }
  | _ =>
    complain ("cd: can't cd to " ++ path)
    setStatus 2

/-- Reads a line into variables; the last one takes the rest. -/
def readInto (names : List Text) : Shell Unit := do
  let names := names.filter fun n => n ≠ Text.ofString "-r"
  let (line, isWhole) ← readLine 0
  let rec split : List Text → Text → List (Text × Text)
    | [], _ => []
    | [name], t => [(name, Text.dropEndWhile isFieldBlank (t.dropWhile isFieldBlank))]
    | name :: more, t =>
      let t := t.dropWhile isFieldBlank
      let word := t.takeWhile fun g => !isFieldBlank g
      (name, word) :: split more (t.drop word.length)
  for (name, value) in split names (Text.ofUtf8 line) do assign name value
  setStatus (if isWhole then 0 else 1)

def setOptions : List Text → Shell Unit
  | [] => setStatus 0
  | a :: args => do
    setStatus 0
    if a = "--" then modify fun s => { s with arguments := args }
    else if a = "-e" then
      modify fun s => { s with isStrict := true }
      setOptions args
    else if a = "+e" then
      modify fun s => { s with isStrict := false }
      setOptions args
    else if a = "-u" then
      modify fun s => { s with isChecked := true }
      setOptions args
    else if a = "-eu" ∨ a = "-ue" then
      modify fun s => { s with isStrict := true, isChecked := true }
      setOptions args
    else match a with
      | .char '-' :: _ | .char '+' :: _ => setOptions args
      | _ => modify fun s => { s with arguments := a :: args }

def number (args : List Text) (default : Nat) : Nat := (args.head?.bind Text.readNat?).getD default

/-- Sets variables from words such as `x=1` and lets programs see them. -/
def exportNames (args : List Text) : Shell Unit := do
  for a in args do
    match Text.cut? a '=' with
    | some (name, value) =>
      assign name value
      modify fun s => { s with exported := name :: s.exported }
    | none => modify fun s => { s with exported := a :: s.exported }
  setStatus 0

/-- The status that an argument gives; one that is no number ends the shell. -/
def statusFrom (name : Text) (args : List Text) : Shell Nat := do
  match args with
  | [] => return (← get).status
  | a :: _ =>
    match Text.readNat? a with
    | some n => return n % 256
    | none => abort (name ++ ": Illegal number: " ++ a)

/-- Runs a file in the shell itself. -/
def source (inner : Inner) (args : List Text) : Shell Unit := do
  let path := args.headD []
  match openSource (← get).files {} path with
  | .ok s => runProgram inner (Program.ofText (Text.ofUtf8 s.data))
  | .error e => abort (".: " ++ openMessage path true e)

/-- Waits until the jobs in the background have ended. -/
def waitForJobs (args : List Text) : Shell Unit := do
  let s ← get
  let picked : List Job := match args.head?.bind Text.readNat? with
    | some pid => (s.jobs.drop (pid - s.pid - 1)).take 1
    | none => s.jobs
  let clock := (picked.map Job.finish).foldl max s.clock
  set { s with
    clock, status := if args.isEmpty then 0 else (picked.map Job.status).headD 127 }

/-- The words that scripts are built with. -/
def keywords : List Text := [
  "if", "then", "else", "elif", "fi", "for", "in", "do", "done", "while", "until", "case", "esac",
  "\x7b", "\x7d", "!"]

/-- The commands that the shell itself carries out. -/
def builtin? (inner : Inner) (name : Text) (args : List Text) : Option (Shell Unit) :=
  let prefixed := fun (make : Text → Utility) => some (do
    let s ← get
    runUtility (make (s.name ++ ": " ++ Text.ofNat s.line ++ ": ")) args false)
  if name = ":" ∨ name = "true" then some (setStatus 0)
  else if name = "false" then some (setStatus 1)
  else if name = "exit" then some (do throw (.exit (← statusFrom name args)))
  else if name = "return" then some (do throw (.return (← statusFrom name args)))
  else if name = "break" then some (do
    setStatus 0
    if (← get).loops ≠ 0 then throw (.break (number args 1)))
  else if name = "continue" then some (do
    setStatus 0
    if (← get).loops ≠ 0 then throw (.continue (number args 1)))
  else if name = "." then some (source inner args)
  else if name = "cd" then some (changeDirectory args)
  else if name = "read" then some (readInto args)
  else if name = "set" then some (setOptions args)
  else if name = "shift" then some (do
    modify fun s => { s with arguments := s.arguments.drop (number args 1), status := 0 })
  else if name = "export" ∨ name = "readonly" ∨ name = "local" then some (exportNames args)
  else if name = "unset" then some (modify fun s => { s with
    bindings := s.bindings.filter fun v => !args.contains v.1, status := 0 })
  else if name = "eval" then some (do
    setStatus 0
    runProgram inner (Program.ofText (Text.join " " args)))
  else if name = "trap" then some (trap args)
  else if name = "kill" then some (kill inner args)
  else if name = "wait" then some (waitForJobs args)
  else if name = "umask" ∨ name = "ulimit" ∨ name = "hash" ∨ name = "times" then some (setStatus 0)
  else if name = "echo" then some (runUtility Utility.shellEcho args false)
  else if name = "printf" then prefixed Utility.printf
  else if name = "test" then prefixed Utility.test
  else if name = "[" then prefixed Utility.bracket
  else none

/-- Runs a function of the script. -/
def callFunction (inner : Inner) (body : Statement) (args : List Text) : Shell Unit := do
  let old := (← get).arguments
  modify fun s => { s with arguments := args }
  let restore : Shell Unit := modify fun s => { s with arguments := old }
  try
    inner.run [body]
    restore
  catch e =>
    restore
    match e with
    | .return n => setStatus n
    | e => throw e

/-- Runs a command by its name: a function, a command of the shell, or a program. -/
def call (inner : Inner) (name : Text) (args : List Text) : Shell Unit := do
  match (← get).functions.lookup name with
  | some body => callFunction inner body args
  | none =>
    match builtin? inner name args with
    | some x => x
    | none => runProgramNamed inner [] name args

/-- Puts a program in place of the shell. -/
def replaceBy (inner : Inner) (name : Text) (args : List Text) : Shell Unit := do
  runProgramNamed inner "exec: " name args
  throw (.exit (← get).status)

/-- Prints what a name would run. -/
def describe (inner : Inner) (name : Text) : Shell Unit := do
  let isFunction := ((← get).functions.lookup name).isSome
  if isFunction || (builtin? inner name []).isSome then
    print 1 (name ++ "\n")
    setStatus 0
  else if Utility.isInstalled name then
    print 1 ("/usr/bin/" ++ name ++ "\n")
    setStatus 0
  else setStatus 127

/-- Tells what names would run. -/
def classify (inner : Inner) (names : List Text) : Shell Unit := do
  setStatus 0
  for name in names do
    let isFunction := ((← get).functions.lookup name).isSome
    let isBuiltin := (builtin? inner name []).isSome ||
      name = "exec" || name = "command" || name = "type"
    if keywords.contains name then print 1 (name ++ " is a shell keyword\n")
    else if isFunction then print 1 (name ++ " is a shell function\n")
    else if isBuiltin then print 1 (name ++ " is a shell builtin\n")
    else if Utility.isInstalled name then print 1 (name ++ " is /usr/bin/" ++ name ++ "\n")
    else
      print 1 (name ++ ": not found\n")
      setStatus 127

/-- Whether what a script prints is part of a word. -/
def hasOutput (w : Word) : Bool := w.any fun
  | .output .. => true
  | _ => false

/-- Runs a simple command. -/
def simpleCommand (inner : Inner) (line : Nat) (assignments : List (Text × Word))
    (words : List Word) (rs : List Redirection) : Shell Unit := do
  modify fun s => { s with line }
  elapse commandTime
  let before := (← get).status
  let fields ← wordFields inner words
  match fields with
  | [] =>
    for (name, w) in assignments do assign name (← textOf inner w)
    unless words.any hasOutput || assignments.any fun a => hasOutput a.2 do setStatus 0
    if !rs.isEmpty then redirected inner rs (pure ())
  | name :: args =>
    let old := (← get).bindings
    let oldExported := (← get).exported
    for (n, w) in assignments do
      assign n (← textOf inner w)
      modify fun s => { s with exported := n :: s.exported }
    -- The commands that look at the last status see the one before this command.
    setStatus before
    if name = "exec" then
      match args with
      | [] => for r in rs do
          unless ← redirect inner r do throw (.exit 2)
      | name :: args => redirected inner rs (replaceBy inner name args)
    else if name = "command" then
      redirected inner rs (match args with
        | [.char '-', .char 'v'] :: name :: _ => describe inner name
        | name :: args =>
          match builtin? inner name args with
          | some x => x
          | none => runProgramNamed inner [] name args
        | [] => setStatus 0)
    else if name = "type" then redirected inner rs (classify inner args)
    else redirected inner rs (call inner name args)
    unless assignments.isEmpty do
      modify fun s => { s with bindings := old, exported := oldExported }

/-! ### Compound commands -/

/-- Runs something whose status is looked at. -/
def tested (x : Shell Unit) : Shell Unit := do
  let old := (← get).isTested
  let restore : Shell Unit := modify fun s => { s with isTested := old }
  modify fun s => { s with isTested := true }
  try
    x
    restore
  catch e =>
    restore
    throw e

/-- Ends a strict shell whose command has failed. -/
def checkStatus : Shell Unit := do
  let s ← get
  if s.isStrict && !s.isTested && s.status ≠ 0 then throw (.exit s.status)

/-- Runs the body of a loop once; tells whether the loop goes on. -/
def round (body : Shell Unit) : Shell Bool := do
  modify fun s => { s with loops := s.loops + 1 }
  let leave : Shell Unit := modify fun s => { s with loops := s.loops - 1 }
  try
    body
    leave
    return true
  catch e =>
    leave
    match e with
    | .break (n + 2) => throw (.break (n + 1))
    | .break _ => return false
    | .continue (n + 2) => throw (.continue (n + 1))
    | .continue _ => return true
    | e => throw e

/-- Runs a body as long as a condition holds, or until it does. -/
def whileLoop (inner : Inner) (isUntil : Bool) (condition body : List Statement) : Shell Unit := do
  let mut status := 0
  for _ in [0 : roundLimit] do
    tested (inner.run condition)
    if ((← get).status = 0) = isUntil then
      setStatus status
      return
    unless ← round (inner.run body) do return
    status := (← get).status
  throw .endless

/-- Runs a body for each of some values. -/
def eachLoop (inner : Inner) (name : Text) (values : List Text) (body : List Statement) :
    Shell Unit := do
  setStatus 0
  for v in values do
    assign name v
    unless ← round (inner.run body) do return

/-- Runs the first case whose pattern fits. -/
def chooseCase (inner : Inner) (subject : Text) : List (List Word × List Statement) → Shell Unit
  | [] => setStatus 0
  | (patterns, body) :: rest => do
    let fields ← patterns.mapM (fieldOf inner)
    if fields.any (fits · subject) then
      setStatus 0
      inner.run body
    else chooseCase inner subject rest

/-- Runs the stages of a pipeline side by side, each in a copy of the shell. -/
def pipeline (inner : Inner) (input : Option Source) : List Statement → Shell Unit
  | [] => return
  | c :: rest => do
    let start := (← get).clock
    let body : Shell Unit := do
      if let some s := input then openAs 0 s
      inner.run [c]
    match rest with
    | [] => inCopy body
    | rest =>
      let (s, isEnded) ← captured body
      let now := (← get).clock
      let finish := if isEnded then now else start
      modify fun st => { st with clock := start }
      pipeline inner (some s) rest
      modify fun st => { st with clock := max finish st.clock }

/-- Runs a command beside the shell. -/
def background (inner : Inner) (c : Statement) : Shell Unit := do
  let start := (← get).clock
  let hides := fun (rs : List Redirection) =>
    [1, 2].all fun n => rs.any fun | .mk d _ _ => d = n
  let holdsPipes := match c with
    | .simple _ _ _ rs => !hides rs
    | .redirected _ rs => !hides rs
    | _ => true
  modify fun s => { s with clock := start + 1 }
  let (status, isEnded) ← tryCatch (do
      inCopy (inner.run [c])
      pure ((← get).status, true)) fun e => match e with
    | .endless => pure (0, false)
    | .killed n => pure (128 + n, true)
    | e => throw e
  modify fun s => { s with
    clock := start, status := 0
    jobs := s.jobs ++
      [{ finish := if isEnded then s.clock else s.clock + Nat.pow 10 15, status, holdsPipes }] }

/-- Runs one command. -/
def runCommand (inner : Inner) : Statement → Shell Unit
  | .simple line assignments words rs => do
    simpleCommand inner line assignments words rs
    checkStatus
  | .pipe stages => do
    pipeline inner none stages
    checkStatus
  | .negated c => do
    tested (inner.run [c])
    setStatus (if (← get).status = 0 then 1 else 0)
  | .joined isAnd first second => do
    tested (inner.run [first])
    if ((← get).status = 0) = isAnd then inner.run [second]
  | .sequence cs => inner.run cs
  | .background c => background inner c
  | .subshell body => do
    inCopy (inner.run body)
    checkStatus
  | .redirected c rs => redirected inner rs (inner.run [c])
  | .branch condition yes no => do
    tested (inner.run condition)
    if (← get).status = 0 then inner.run yes
    else
      setStatus 0
      inner.run no
  | .loop isUntil condition body => whileLoop inner isUntil condition body
  | .each name words? body => do
    let values ← match words? with
      | some ws => wordFields inner ws
      | none => pure (← get).arguments
    eachLoop inner name values body
  | .choice subject cs => do chooseCase inner (← textOf inner subject) cs
  | .define name body => modify fun s => { s with
      functions := (name, body) :: s.functions.filter fun f => f.1 ≠ name, status := 0 }

/-- What runs scripts and expands words, to a depth of nesting. -/
def inner : (depth : Nat) → Inner
  | 0 => ⟨fun _ => throw .endless, fun _ => throw .endless⟩
  | depth + 1 =>
    let i := inner depth
    { run := fun cs => cs.forM (runCommand i)
      pieces := wordPieces i }

/-- The depth to which functions and scripts may call each other. -/
def depthLimit : Nat := 2000

end Shell

end Posix

end CallerTree
