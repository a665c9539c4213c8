import CallerTree.Text.Utf8

/-!
# Lines of a byte stream

The output of a running tool is read through a buffer of fixed size. A line that does not fit into
the buffer arrives in fragments; a line longer than a limit is skipped and the stream goes on.

## Contract

A line ends at a line feed, and a carriage return before it is dropped. The rest after the last line
feed is a line too, with its carriage return kept.

## Implementation notes

A full buffer is handed on before its continuation is seen; it keeps a carriage return at its end
back, since the next byte may be the line feed. If the stream ends right after a full buffer, no
further fragment follows, and the line that the buffer belongs to is never completed.
-/

namespace CallerTree

namespace Stream

def bufferSize : Nat := 64 * 1024

/-- The length of the longest line handed on. -/
def lineLimit : Nat := 1024 * 1024

/-- What one look at the buffer yields. -/
structure Fragment where
  data : Bytes
  /-- The line goes on in the next fragment. -/
  partial_ : Bool
  deriving DecidableEq, Repr

def lineFeed : UInt8 := 0x0A

def carriageReturn : UInt8 := 0x0D

/-- Without one carriage return at the end. -/
def dropReturn (line : Bytes) : Bytes :=
  if line.getLast? = some carriageReturn then line.dropLast else line

/-- The number of bytes that a full buffer hands on. -/
def fullLength (size : Nat) (line : Bytes) : Nat :=
  max 1 (if (line.take size).getLast? = some carriageReturn then size - 1 else size)

/-- The fragments of one line. A line that is not `ended` is followed by the end of the stream. -/
def fragments (size : Nat) (ended : Bool) (line : Bytes) : List Fragment :=
  if line ≠ [] ∧ size ≤ line.length then
    ⟨line.take (fullLength size line), true⟩ ::
      fragments size ended (line.drop (fullLength size line))
  else if ended then [⟨dropReturn line, false⟩]
  else if line = [] then []
  else [⟨line, false⟩]
termination_by line.length
decreasing_by
  simp only [List.length_drop, fullLength]
  have : 0 < line.length := List.length_pos_iff.mpr (by simp_all)
  omega

/-- All fragments of a stream. -/
def allFragments (size : Nat) (input : Bytes) : List Fragment :=
  let lines := pieces (· = lineFeed) input
  lines.dropLast.flatMap (fragments size true) ++
    (lines.getLast?.map (fragments size false)).getD []

/-- What becomes of a line. -/
inductive Event where
  | line (data : Bytes)
  | skip
  deriving DecidableEq, Repr

/-- A line under assembly, and the events so far, the last one first. -/
structure Assembly where
  held : Bytes := []
  overlong : Bool := false
  events : List Event := []

/-- Takes one fragment up. -/
def Assembly.add (limit : Int) (a : Assembly) (f : Fragment) : Assembly :=
  let overlong := a.overlong || limit < a.held.length + f.data.length
  let held := if overlong then [] else a.held ++ f.data
  if f.partial_ then { a with held, overlong }
  else { events := (if overlong then .skip else .line held) :: a.events }

/-- The lines of a stream and the places where one was skipped. -/
def events (size : Nat) (limit : Int) (input : Bytes) : List Event :=
  ((allFragments size input).foldl (Assembly.add limit) {}).events.reverse

/-- The events up to the `n`-th line. -/
def upToLine : (n : Nat) → List Event → List Event
  | 0, _ => []
  | _, [] => []
  | n + 1, .line l :: rest => .line l :: upToLine n rest
  | n + 1, .skip :: rest => .skip :: upToLine (n + 1) rest

def lines (es : List Event) : List Bytes :=
  es.filterMap fun
    | .line l => some l
    | .skip => none

def skipped (es : List Event) : Nat := es.countP (· = .skip)

end Stream

end CallerTree
