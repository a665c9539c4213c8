import CallerTree.Failure
import CallerTree.FileSystem
import CallerTree.Log
import CallerTree.Stream

/-!
# External tools

Occurrences come from external tools where those are installed. A tool is seen from outside only: a
command goes in, and output or a failure comes back. The files may have changed meanwhile.
-/

namespace CallerTree

structure Command where
  name : Text
  args : List Text
  /-- The directory to run in; empty for the current one. -/
  dir : Text := []
  deriving DecidableEq, Repr

/-- The command as shown in messages. -/
def Command.shown (c : Command) : Text := c.name ++ " [" ++ Text.join " " c.args ++ "]"

structure Output where
  stdout : Bytes := []
  stderr : Bytes := []
  exit : Int := 0
  deriving DecidableEq, Repr

/-- What a command does: it may end the request that issued it, change files and write to the log,
and then it answers. -/
structure Reply where
  cancels : Bool := false
  /-- The files that it leaves, if it changes any. -/
  files : Option FileSystem := none
  log : List Record := []
  outcome : Except Failure Output
  /-- The failure that takes the place of the outcome when the request ends too early for it. -/
  interrupted : Option Failure := none

/-- The failure of a command whose tool does not exist. -/
def toolMissing (name : Text) : Failure := .because .toolNotFound name

/-- A text from tool output. -/
def Output.errorText (o : Output) : Text := Text.ofUtf8 o.stderr

/-- The lines of a tool's output as a search reads them: ended by line feeds, with one carriage
return dropped from each. A line that fills the buffer ends the output. -/
def Output.streamed (o : Output) : List Text :=
  let lines := pieces (· = Stream.lineFeed) o.stdout
  let lines := if lines.getLast? = some [] then lines.dropLast else lines
  (lines.takeWhile fun l => l.length < Stream.bufferSize).map fun l =>
    Text.ofUtf8 (Stream.dropReturn l)

/-! ### Lines one by one -/

/-- What has come so far of lines that are handed on one by one. -/
structure Handover (σ : Type) where
  /-- What the receiver has made of the lines. -/
  state : σ
  /-- The number of lines that the receiver was shown. -/
  shown : Nat := 0
  /-- The receiver has refused a line. -/
  isStopped : Bool := false
  deriving DecidableEq, Repr

/-- Shows lines to a receiver until it refuses one. -/
def Handover.feed {σ : Type} (receive : σ → Text → σ × Bool) : Handover σ → List Text → Handover σ
  | h, [] => h
  | h, line :: rest =>
    let (state, goesOn) := receive h.state line
    let h := { state, shown := h.shown + 1, isStopped := !goesOn }
    if goesOn then feed receive h rest else h

end CallerTree
