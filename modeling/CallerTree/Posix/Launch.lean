import CallerTree.Posix.Shell
import CallerTree.World

/-!
# Launching processes

A command is started, its output is collected or read line by line, and its end is waited for. A
process that outlives its deadline is ended, and so is one whose output nobody reads any more.

## Contract

A command that cannot be started fails with a message of its own, and a command whose tool does not
exist with the cause `Cause.toolNotFound`. An exit status is never a failure.
-/

namespace CallerTree

namespace Posix

/-- The machine that commands run on. -/
structure Machine where
  files : FileSystem
  /-- The time in nanoseconds for which output may stay open after the end of a process. -/
  grace : Nat := 100000000

/-- How a process went. -/
structure Course where
  /-- The exit status; `-1` if a signal ended it. -/
  exit : Int
  /-- When it ended, if it did. -/
  finish : Option Nat
  /-- When the last process that could write to its output ended. -/
  closing : Nat
  /-- What was written and when, in order. -/
  chunks : List Chunk

namespace Course

/-- The course of a process that left this state behind. Whoever wrote something could still write
then, so the output is not closed before the last thing was written. -/
def ofState (exit : Int) (isEnded : Bool) (s : State) : Course :=
  let held := (s.jobs.filter Job.holdsPipes).map Job.finish
  { exit, finish := if isEnded then some s.clock else none
    closing := (held ++ s.chunks.map (·.time)).foldl max s.clock
    chunks := s.chunks.reverse.mergeSort fun a b => a.time ≤ b.time }

/-- What went into a pipe up to a moment. -/
def written (c : Course) (pipe : Nat) (until? : Option Nat) : Bytes :=
  (c.chunks.filter fun k => k.pipe = pipe && until?.all (k.time ≤ ·)).flatMap (·.data)

end Course

/-- What a streamed command gave. -/
structure Streamed where
  lines : List Bytes
  skipped : Nat
  /-- The reader had enough before the end. -/
  isStopped : Bool
  exit : Int
  stderr : Bytes

namespace Machine

/-! ### Finding and starting -/

/-- A name without a folder is looked up among the installed programs. -/
def isBare (name : Text) : Bool := !name.isEmpty && !name.any (· = .char '/')

/-- Whether a tool can be run. -/
def hasTool (m : Machine) (name : Text) : Bool :=
  if isBare name then Utility.isInstalled name
  else (Shell.knownName? name).isSome ||
    match m.files.entry true name with
    | .ok (.file mode _) => mode &&& 0o111 ≠ 0
    | _ => false

def startFailure (c : Command) (path : Text) (e : FileError) : Failure :=
  if e = .missing then toolMissing c.name
  else .message ("proc: " ++ c.name ++ ": fork/exec " ++ path ++ ": " ++ e.text)

/-- The files as seen from the directory of a command. -/
def filesFor (m : Machine) (c : Command) (path : Text) : Except Failure FileSystem :=
  if c.dir.isEmpty then .ok m.files
  else match m.files.locate true c.dir with
    | .ok ⟨components, some (.folder _)⟩ =>
      .ok { m.files with workingDirectory := components }
    | .ok ⟨_, some _⟩ => .error (startFailure c path .notFolder)
    | .ok ⟨_, none⟩ => .error (toolMissing c.name)
    | .error e =>
      .error (if e = .missing then toolMissing c.name
        else .message ("proc: " ++ c.name ++ ": chdir " ++ c.dir ++ ": " ++ e.text))

/-- The known program that a command runs, its arguments, and the files as it sees them. -/
def start (m : Machine) (c : Command) :
    Except Failure (Text × List Text × FileSystem) := do
  if c.name.isEmpty then throw (.message "proc: : exec: no command")
  if isBare c.name && !Utility.isInstalled c.name then throw (toolMissing c.name)
  let path := if isBare c.name then "/usr/bin/" ++ c.name else c.name
  let files ← m.filesFor c path
  if c.args.any (·.contains "\x00") then throw (startFailure c path .badArgument)
  match Shell.resolve files Shell.interpreterLimit path c.args with
  | .ok (program, args) => return (program, args, files)
  | .error e => throw (startFailure c path e)

/-! ### Running -/

/-- Lets a program run, up to its deadline. With a budget it runs until it has written that many
lines. -/
def course (program : Text) (args : List Text) (files : FileSystem) (budget deadline : Option Nat) :
    Course × FileSystem :=
  let result := Shell.knownProgram (Shell.inner Shell.depthLimit) program args
    { files, name := program, budget, deadline }
  let (exit, isEnded, s) := match result with
    | .ok _ s => ((s.status : Int), true, s)
    | .error (.exit n) s | .error (.return n) s => ((n : Int), true, s)
    | .error (.killed _) s => (-1, true, s)
    | .error .endless s | .error .unread s => (-1, false, s)
    | .error _ s => ((s.status : Int), true, s)
  (.ofState exit isEnded s, { s.files with workingDirectory := files.workingDirectory })

def expired (c : Command) : Failure := .under ("proc: " ++ c.name) (.cause .deadline)

/-- Runs a command to its end. The deadline is in nanoseconds from the start. -/
def run (m : Machine) (context : Context) (deadline : Option Nat) (c : Command) :
    Except Failure Output × Machine :=
  match context.look.1, m.start c with
  | some cause, _ => (.error (.cause cause), m)
  | none, .error f => (.error f, m)
  | none, .ok (program, args, files) =>
    let (course, files) := course program args files none deadline
    let m := { m with files := { files with workingDirectory := m.files.workingDirectory } }
    match course.finish with
    | none => (.error (expired c), m)
    | some finish =>
      let giveUp := min course.closing (finish + m.grace)
      let isClean := course.exit = 0 ∧ giveUp = course.closing
      if deadline.any (· < if isClean then finish else giveUp) then (.error (expired c), m)
      else if course.exit = 0 ∧ ¬ isClean then
        (.error (.message
          ("proc: " ++ c.name ++ ": exec: WaitDelay expired before I/O complete")), m)
      else
        (.ok {
          stdout := course.written 1 (some giveUp), stderr := course.written 2 (some giveUp)
          exit := course.exit }, m)

/-- Lines that are let through beyond those that a reader takes, since some of them may be too long
to count. -/
def spareLines : Nat := 64

/-- Runs a command and reads its output line by line. The reader refuses the line behind the first
`stop` ones, unless that is zero. -/
def stream (m : Machine) (context : Context) (deadline : Option Nat) (stop : Nat)
    (c : Command) : Except Failure Streamed × Machine :=
  match context.look.1, m.start c with
  | some cause, _ => (.error (.cause cause), m)
  | none, .error f => (.error f, m)
  | none, .ok (program, args, files) =>
    let budget := if stop = 0 then none else some (stop + 1 + spareLines)
    let (course, files) := course program args files budget deadline
    let m := { m with files := { files with workingDirectory := m.files.workingDirectory } }
    let events := Stream.events Stream.bufferSize Stream.lineLimit (course.written 1 deadline)
    let lines := Stream.lines events
    if stop ≠ 0 ∧ stop < lines.length then
      (.ok {
        lines := lines.take stop, skipped := Stream.skipped (Stream.upToLine (stop + 1) events)
        isStopped := true, exit := -1, stderr := [] }, m)
    else if course.finish.isNone ∨ deadline.any (· < course.closing) then (.error (expired c), m)
    else
      (.ok {
        lines, skipped := Stream.skipped events, isStopped := false, exit := course.exit
        stderr := course.written 2 none }, m)

/-- The tools of a machine. They find the files of the world, and a command that ran to its end is
written to the log. -/
def toolbox (m : Machine) : Toolbox where
  isInstalled := m.hasTool
  answer w c :=
    let (outcome, m) := { m with files := w.files }.run .live none c
    { outcome
      files := some m.files
      log := match outcome with
        | .ok o =>
          [⟨.debug, "process finished", [("cmd", c.name), ("dir", c.dir), ("exit", .int o.exit)]⟩]
        | .error _ => [] }

end Machine

end Posix

end CallerTree
