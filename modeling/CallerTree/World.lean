import CallerTree.Tool

/-!
# The world a request runs in

A request reads and writes files, issues commands, writes log records and counts what happened; and
its context may end at any moment. `Run` is a computation in such a world. A failure keeps what
was done before it.

## Contract

A context that has ended stays ended. It is observed only by looking at it; `Context.ending n` is
the context that `n` more looks still see alive. So time is measured in looks: `World.pace` says how
many of them a time limit leaves to a request.

What a tool answers may depend on everything that happened before, and on the files above all.
-/

namespace CallerTree

/-! ### Contexts -/

/-- Whether a request may go on. -/
inductive Context where
  | live
  | ended (c : Cause)
  | ending (looks : Nat) (c : Cause)
  deriving DecidableEq, Repr

namespace Context

/-- Why the context has ended, if it has, and the context after the look. -/
def look : Context → Option Cause × Context
  | live => (none, live)
  | ended c => (some c, ended c)
  | ending 0 c => (some c, ended c)
  | ending (n + 1) c => (none, ending n c)

/-- The context after a cancellation; one that has ended keeps its cause. -/
def cancel : Context → Context
  | ended c => ended c
  | ending 0 c => ended c
  | _ => ended .canceled

/-- The context under a time limit that is over after so many looks, if it ever is. -/
def within : Option Nat → Context → Context
  | none, κ => κ
  | some n, live => ending n .deadline
  | some n, ending m c => if n ≤ m then ending n .deadline else ending m c
  | some _, ended c => ended c

end Context

namespace Reply

/-- What a command answers when it leaves this context behind. -/
def outcomeIn (r : Reply) (context : Context) : Except Failure Output :=
  match context.look.1, r.interrupted with
  | some _, some f => .error f
  | _, _ => r.outcome

/-- The files after the command, given those before it. -/
def filesAfter (r : Reply) (fs : FileSystem) : FileSystem := r.files.getD fs

end Reply

/-! ### Counters -/

/-- How an index build went. -/
inductive BuildOutcome where
  | ok
  | enumerateFailed
  | writeFailed
  | spawnFailed
  | toolFailed
  deriving DecidableEq, Repr

def BuildOutcome.label : BuildOutcome → String
  | ok => "ok"
  | enumerateFailed => "enumerate_failed"
  | writeFailed => "write_failed"
  | spawnFailed => "spawn_failed"
  | toolFailed => "tool_failed"

/-- How a request went. -/
inductive ResolveOutcome where
  | ok
  | invalid
  | cancelled
  | error
  deriving DecidableEq, Repr

def ResolveOutcome.label : ResolveOutcome → String
  | ok => "ok"
  | invalid => "invalid"
  | cancelled => "cancelled"
  | error => "error"

/-- Something that is counted. -/
inductive Tally where
  /-- A lookup answered, or passed over, by a backend. -/
  | locate (backend : Text) (ok : Bool)
  | build (outcome : BuildOutcome)
  | resolve (outcome : ResolveOutcome)
  /-- The size of a tree handed out. -/
  | nodes (size : Nat)
  deriving DecidableEq, Repr

/-! ### The world -/

structure World where
  files : FileSystem
  context : Context := .live
  /-- The commands issued, in order. -/
  issued : List Command := []
  /-- The log, in order. -/
  log : List Record := []
  /-- What was counted, in order. -/
  tallies : List Tally := []
  /-- The looks that a time limit in nanoseconds leaves, or none if it is never reached. Unless said
  otherwise, one nanosecond is over at once and nothing takes longer than any other limit. -/
  pace : Int → Option Nat := fun limit => if limit = 1 then some 0 else none

/-- The world under a time limit in nanoseconds; there is none unless it is positive. -/
def World.within (limit : Int) (w : World) : World :=
  { w with context := if 0 < limit then w.context.within (w.pace limit) else w.context }

/-- The installed tools. -/
structure Toolbox where
  /-- What a command does in a world. -/
  answer : World → Command → Reply
  isInstalled : Text → Bool

abbrev Run := EStateM Failure World

namespace Run

/-- Whether the context has ended. -/
def look : Run (Option Cause) := fun w =>
  let (ended, context) := w.context.look
  .ok ended { w with context }

/-- Fails with the context's cause once it has ended. -/
def check : Run Unit := do
  match ← look with
  | some c => throw (.cause c)
  | none => return

def note (level : Level) (message : Text) (attributes : List (Text × Datum)) : Run Unit :=
  modify fun w => { w with log := w.log ++ [⟨level, message, attributes⟩] }

def count (t : Tally) : Run Unit := modify fun w => { w with tallies := w.tallies ++ [t] }

def files : Run FileSystem := return (← get).files

/-- The outcome as a value; the world keeps what was done. -/
def attempt {α : Type} (x : Run α) : Run (Except Failure α) := fun w =>
  match x w with
  | .ok a w' => .ok (.ok a) w'
  | .error e w' => .ok (.error e) w'

/-- Turns a value into a success or a failure. -/
def ofExcept {α : Type} : Except Failure α → Run α
  | .ok a => pure a
  | .error e => throw e

/-- Issues a command. It is recorded first; a request that has ended runs nothing. -/
def command (tools : Toolbox) (c : Command) : Run Output := do
  modify fun w => { w with issued := w.issued ++ [c] }
  check
  let reply := tools.answer (← get) c
  modify fun w => { w with
    context := if reply.cancels then w.context.cancel else w.context
    files := reply.filesAfter w.files
    log := w.log ++ reply.log }
  ofExcept (reply.outcomeIn (← get).context)

/-- Runs a computation under a time limit. -/
def within {α : Type} (limit : Int) (x : Run α) : Run α := do
  modify (World.within limit)
  x

end Run

end CallerTree
