import CallerTree.Posix.Script
import CallerTree.Posix.Utility.Basic

/-!
# The state of a shell

A shell has variables, arguments and a table of descriptors. What it writes into pipes is kept in
pieces with the time of writing.
-/

namespace CallerTree

namespace Posix

/-- What a descriptor leads to. -/
inductive Channel where
  /-- A pipe to write into. -/
  | pipe (id : Nat)
  /-- A file to write to, at its end. -/
  | file (place : List Text)
  /-- Something to read from. -/
  | source (id : Nat)
  | null
  deriving DecidableEq, Repr

structure Chunk where
  pipe : Nat
  time : Nat
  data : Bytes

/-- A command in the background. -/
structure Job where
  finish : Nat
  status : Nat
  /-- It can still write into the pipes of the shell. -/
  holdsPipes : Bool

structure State where
  files : FileSystem
  /-- The time in nanoseconds. -/
  clock : Nat := 0
  /-- The name of the script, for messages. -/
  name : Text
  arguments : List Text := []
  bindings : List (Text × Text) := []
  /-- The names of variables that programs see. -/
  exported : List Text := []
  functions : List (Text × Statement) := []
  status : Nat := 0
  pid : Nat := 4000
  line : Nat := 1
  channels : List (Nat × Channel) := [(0, .null), (1, .pipe 1), (2, .pipe 2)]
  sources : List (Nat × Source) := []
  /-- What was written, the latest first. -/
  chunks : List Chunk := []
  /-- Pipes that something never stops writing into. -/
  endless : List (Nat × Remainder) := []
  nextId : Nat := 3
  traps : List (Text × Text) := []
  jobs : List Job := []
  /-- The number of loops around the current command. -/
  loops : Nat := 0
  /-- A command that fails ends the shell. -/
  isStrict : Bool := false
  /-- A variable without a value ends the shell. -/
  isChecked : Bool := false
  /-- The status of what runs is looked at. -/
  isTested : Bool := false
  /-- The number of lines that the reader of the output still takes, if it stops reading. -/
  budget : Option Nat := none
  /-- The time after which nothing counts any more. -/
  deadline : Option Nat := none

/-- The variables that programs see. -/
def State.environment (s : State) : List (Text × Text) :=
  s.bindings.filter fun v => s.exported.contains v.1

/-- What ends a command before its time. -/
inductive Leave where
  | exit (status : Nat)
  | killed (signal : Nat)
  | break (levels : Nat)
  | continue (levels : Nat)
  | return (status : Nat)
  /-- The command never ends. -/
  | endless
  /-- Nobody reads the output any more. -/
  | unread
  deriving DecidableEq, Repr

abbrev Shell := EStateM Leave State

namespace Shell

def setStatus (n : Nat) : Shell Unit := modify fun s => { s with status := n }

/-- Lets time pass. What would go on after the deadline counts as endless. -/
def elapse (n : Nat) : Shell Unit := do
  modify fun s => { s with clock := s.clock + n }
  let s ← get
  if s.deadline.any (· < s.clock) then throw .endless

/-- The time that a command of the shell takes, in nanoseconds. -/
def commandTime : Nat := 2000

/-- The time that a program takes, in nanoseconds. -/
def programTime : Nat := 100000

def freshId : Shell Nat := do
  let n := (← get).nextId
  modify fun s => { s with nextId := n + 1 }
  return n

def channel (descriptor : Nat) : Shell Channel :=
  return ((← get).channels.lookup descriptor).getD .null

/-! ### Writing -/

/-- Adds to the end of a file. -/
def appendTo (files : FileSystem) (place : List Text) (data : Bytes) : FileSystem :=
  match files.top.get? place with
  | some (.file mode old) => files.setAt place (some (.file mode (old ++ data)))
  | _ => files.setAt place (some (.file 0o644 data))

/-- Writes to a channel. -/
def writeTo (c : Channel) (data : Bytes) : Shell Unit := do
  if data.isEmpty then return
  match c with
  | .null | .source _ => return
  | .file place => modify fun s => { s with files := appendTo s.files place data }
  | .pipe id =>
    modify fun s => { s with chunks := ⟨id, s.clock, data⟩ :: s.chunks }
    if id = 1 then
      match (← get).budget with
      | none => return
      | some n =>
        let lines := Source.countLines data
        if n ≤ lines then throw .unread
        modify fun s => { s with budget := some (n - lines) }

def write (descriptor : Nat) (data : Bytes) : Shell Unit := do writeTo (← channel descriptor) data

def print (descriptor : Nat) (t : Text) : Shell Unit := write descriptor t.utf8

/-- Writes all of a source; one without end never comes back. -/
def emit (descriptor : Nat) (s : Source) : Shell Unit := do
  let c ← channel descriptor
  writeTo c s.data
  match s.remainder, c with
  | .ended, _ => return
  | .repeats block, .pipe id =>
    match id, (← get).budget with
    | 1, some n => writeTo c (List.replicate (n + 1) block).flatten
    | _, _ => modify fun st => { st with endless := (id, .repeats block) :: st.endless }
    throw .endless
  | _, _ => throw .endless

/-- A message of the shell itself. -/
def complain (t : Text) : Shell Unit := do
  let s ← get
  print 2 (s.name ++ ": " ++ Text.ofNat s.line ++ ": " ++ t ++ "\n")

/-- Takes what was written into a pipe. -/
def collect (id : Nat) : Shell Source := do
  let s ← get
  let (mine, rest) := s.chunks.partition (·.pipe = id)
  set { s with chunks := rest, endless := s.endless.filter fun e => e.1 ≠ id }
  return { data := mine.reverse.flatMap (·.data), remainder := (s.endless.lookup id).getD .ended }

/-! ### Reading -/

/-- What can be read from a descriptor; it is used up. -/
def readAll (descriptor : Nat) : Shell Source := do
  match ← channel descriptor with
  | .source id =>
    let s := ((← get).sources.lookup id).getD {}
    modify fun st => { st with sources := (id, {}) :: st.sources.filter fun e => e.1 ≠ id }
    return s
  | _ => return {}

/-- The next line from a descriptor, and whether there was a whole one. -/
def readLine (descriptor : Nat) : Shell (Bytes × Bool) := do
  match ← channel descriptor with
  | .source id =>
    let s := (((← get).sources.lookup id).getD {}).unrolled 1
    let n := Source.lengthOfLines 1 s.data
    modify fun st => { st with
      sources := (id, { s with data := s.data.drop n }) :: st.sources.filter fun e => e.1 ≠ id }
    let line := s.data.take n
    return if line.getLast? = some Stream.lineFeed then (line.dropLast, true) else (line, false)
  | _ => return ([], false)

/-- A descriptor to read a source from. -/
def openAs (descriptor : Nat) (s : Source) : Shell Unit := do
  let id ← freshId
  modify fun st => { st with
    sources := (id, s) :: st.sources
    channels := (descriptor, .source id) :: st.channels }

/-! ### Parts of a shell -/

/-- Runs in a copy of the shell: what it changes is lost, apart from files and what it writes. An
exit ends only the copy. -/
def inCopy (x : Shell Unit) : Shell Unit := do
  let old ← get
  let restore : Shell Unit := modify fun s => { s with
    files := { s.files with workingDirectory := old.files.workingDirectory }
    name := old.name, arguments := old.arguments, bindings := old.bindings
    exported := old.exported, loops := old.loops, functions := old.functions
    channels := old.channels, traps := old.traps, pid := old.pid
    line := old.line, isStrict := old.isStrict, isChecked := old.isChecked
    isTested := old.isTested }
  try
    x
    restore
  catch e =>
    restore
    match e with
    | .exit n | .return n => setStatus n
    | .break _ | .continue _ => return
    | e => throw e

/-- The source that a command writes to its output. It runs in a copy of the shell. -/
def captured (x : Shell Unit) : Shell (Source × Bool) := do
  let id ← freshId
  let isEnded ← try
      inCopy do
        modify fun s => { s with channels := (1, .pipe id) :: s.channels }
        x
      pure true
    catch e => match e with
      | .endless => pure false
      | e => throw e
  let s ← collect id
  return (if isEnded || s.remainder ≠ .ended then s else { s with remainder := .unknown }, isEnded)

end Shell

end Posix

end CallerTree
