import CallerTree.Posix.Regex
import CallerTree.Posix.Utility.Lines

/-!
# The stream editor

A script is a list of commands, each with a guard that says on which lines it is carried out. In
each cycle a line is read, the commands are carried out on it, and what has become of it is printed.

## Implementation notes

Scripts are read character by character. A message about a script tells how many characters had been
read when something turned out to be wrong. The commands are those that look at one line at a time:
there are neither blocks nor jumps, and nothing is kept from one line to the next but open ranges.
-/

namespace CallerTree

namespace Posix

namespace Sed

/-- A line, or the first or the last one of a range. -/
inductive Address where
  | line (n : Nat)
  | last
  | fitting (r : Regex)
  deriving DecidableEq, Repr

/-- On which lines a command is carried out. -/
structure Guard where
  first : Option Address := none
  bound : Option Address := none
  isNegated : Bool := false
  deriving DecidableEq, Repr

/-- A part of what is put in place of a match. -/
inductive Part where
  | char (c : Char)
  | group (index : Nat)
  deriving DecidableEq, Repr

structure Substitution where
  regex : Regex
  parts : List Part
  /-- The first match that is replaced, counted from one. -/
  nth : Nat := 1
  isGlobal : Bool := false
  prints : Bool := false
  foldsCase : Bool := false
  deriving DecidableEq, Repr

inductive Action where
  | print
  | delete
  | quit
  | number
  | substitute (s : Substitution)
  deriving DecidableEq, Repr

structure Command where
  guard : Guard
  action : Action
  deriving DecidableEq, Repr

/-! ### Reading -/

/-- What is left of a script, and how much of it has been read. -/
structure Cursor where
  rest : List Char
  used : Nat := 0
  isExtended : Bool

abbrev Read := EStateM Text Cursor

namespace Read

/-- Stops with a message. -/
def fail {α : Type} (message : Text) : Read α := throw message

def next : Read (Option Char) := do
  let s ← get
  match s.rest with
  | [] => return none
  | c :: rest =>
    set { s with rest, used := s.used + 1 }
    return some c

/-- Puts a character back. -/
def unread : Option Char → Read Unit
  | none => return
  | some c => modify fun s => { s with rest := c :: s.rest, used := s.used - 1 }

/-- Reads the characters for which something holds. -/
def takeWhile (p : Char → Bool) : Read (List Char) := do
  let s ← get
  let found := s.rest.takeWhile p
  set { s with rest := s.rest.drop found.length, used := s.used + found.length }
  return found

/-- The next character that is not blank. -/
def nextNonblank : Read (Option Char) := do
  let _ ← takeWhile fun c => c = ' ' || c = '\t'
  next

/-- A number whose first digit has been read. -/
def numberFrom (c : Char) : Read Nat := do
  let digits := c :: (← takeWhile Char.isDigit)
  return digits.foldl (fun n c => 10 * n + (c.toNat - 48)) 0

def commandEnd : Read Unit := do
  match ← nextNonblank with
  | none | some '\n' | some ';' => return
  | _ => fail "extra characters after command"

/-- The text up to a delimiter. An escaped delimiter stands for itself, and in an expression `\n` is
a line feed. -/
def delimited (delimiter : Char) (isRegex : Bool) : (fuel : Nat) → (done : List Char) →
    Read (Option (List Char))
  | 0, _ => return none
  | fuel + 1, done => do
    match ← next with
    | none | some '\n' => return none
    | some '\\' =>
      match ← next with
      | none => return none
      | some c =>
        if c = 'n' && isRegex then delimited delimiter isRegex fuel ('\n' :: done)
        else if c = delimiter then delimited delimiter isRegex fuel (c :: done)
        else delimited delimiter isRegex fuel (c :: '\\' :: done)
    | some c =>
      if c = delimiter then return some done.reverse
      else delimited delimiter isRegex fuel (c :: done)

def regexOf (cs : List Char) : Read Regex := do
  if cs.isEmpty then fail "no previous regular expression"
  let d : Regex.Dialect :=
    { isExtended := (← get).isExtended, knowsEscapes := true, isStrict := true }
  match Regex.read d cs with
  | .ok r => return r
  | .error e => throw e.text

/-- An address that starts with a character. -/
def address? : Option Char → Read (Option Address)
  | some '/' => do
    match ← delimited '/' true ((← get).rest.length + 1) [] with
    | none => fail "unterminated address regex"
    | some cs => return some (.fitting (← regexOf cs))
  | some '$' => return some .last
  | some c => do if c.isDigit then return some (.line (← numberFrom c)) else return none
  | none => return none

/-- What stands before a command, and the character of the command. -/
def guarded (c : Option Char) : Read (Guard × Option Char) := do
  let first ← address? c
  let mark ← if first.isSome then nextNonblank else pure c
  if first = some (.line 0) then fail "invalid usage of line address 0"
  let (bound, mark) ←
    if first.isSome && mark = some ',' then
      match ← address? (← nextNonblank) with
      | none => fail "unexpected \x60,'"
      | some b => pure (some b, ← nextNonblank)
    else pure (none, mark)
  if mark = some '!' then return ({ first, bound, isNegated := true }, ← nextNonblank)
  return ({ first, bound }, mark)

/-- The parts of a replacement. -/
def replacementParts : List Char → List Part
  | [] => []
  | '&' :: rest => .group 0 :: replacementParts rest
  | '\\' :: c :: rest =>
    (if c.isDigit then .group (c.toNat - 48) else .char (Regex.escapedChar c)) ::
      replacementParts rest
  | c :: rest => .char c :: replacementParts rest

/-- The flags of a substitution. -/
def flags : (fuel : Nat) → Substitution → Read Substitution
  | 0, s => return s
  | fuel + 1, s => do
    match ← next with
    | some 'i' | some 'I' => flags fuel { s with foldsCase := true }
    | some 'p' => flags fuel { s with prints := true }
    | some 'g' => flags fuel { s with isGlobal := true }
    | some ' ' => flags fuel s
    | none | some '\n' | some ';' => return s
    | some c =>
      if !c.isDigit then fail "unknown option to \x60s'"
      let nth ← numberFrom c
      if nth = 0 then fail "number option to \x60s' command may not be zero"
      flags fuel { s with nth }

def substitution : Read Action := do
  let unterminated : Read Action := fail "unterminated \x60s' command"
  match ← next with
  | none => unterminated
  | some d =>
    let fuel := (← get).rest.length + 1
    match ← delimited d true fuel [] with
    | none => unterminated
    | some regex =>
      match ← delimited d false fuel [] with
      | none => unterminated
      | some replacement =>
        let regex ← regexOf regex
        return .substitute (← flags fuel { regex, parts := replacementParts replacement })

def action : Option Char → Read Action
  | none => fail "missing command"
  | some 's' => substitution
  | some c => do
    let a ← match c with
      | '=' => pure .number
      | 'd' => pure .delete
      | 'p' => pure .print
      | 'q' => pure .quit
      | c => fail ("unknown command: \x60" ++ textOfOctets [c] ++ "'")
    commandEnd
    return a

/-- Reads commands to the end of the script. -/
def commands : (fuel : Nat) → Read (List Command)
  | 0 => return []
  | fuel + 1 => do
    let _ ← takeWhile fun c => c = ' ' || ('\t' ≤ c && c ≤ '\r') || c = ';'
    let c ← next
    if c.isNone then return []
    let (guard, c) ← guarded c
    let action ← action c
    return { guard, action } :: (← commands fuel)

end Read

/-- Reads a script from its parts, which stand on lines of their own, or says why it cannot run. -/
def readScript (isExtended : Bool) (parts : List (List Char)) : Except Text (List Command) :=
  let all := (parts.intersperse ['\n']).flatten
  match (Read.commands (all.length + 1)).run { rest := all, isExtended } with
  | .ok script _ => .ok script
  | .error e s => .error ("-e expression #" ++ Text.ofNat parts.length ++ ", char " ++
      Text.ofNat s.used ++ ": " ++ e)

/-! ### Running -/

/-- A line of the input. -/
structure Line where
  chars : List Char
  /-- There is a line feed behind it. -/
  isWhole : Bool := true

/-- One cycle of a script. -/
structure Cycle where
  pattern : List Char
  isWhole : Bool
  number : Nat
  isLast : Bool
  /-- What was printed, the latest first. -/
  out : List Bytes := []
  isDeleted : Bool := false
  isOver : Bool := false

/-- The ranges that are open, by the places of their commands. -/
abbrev Ranges := List Nat

namespace Cycle

/-- Prints the line with its end. -/
def putLine (w : Cycle) : Cycle :=
  { w with out := (bytesOf w.pattern ++ if w.isWhole then [Stream.lineFeed] else []) :: w.out }

def isAt (w : Cycle) : Address → Bool
  | .line n => w.number = n
  | .last => w.isLast
  | .fitting r => r.matchesIn false w.pattern

/-- Whether the command at a place is carried out, and the ranges that are open then. -/
def isGuarded (w : Cycle) (place : Nat) (g : Guard) (ranges : Ranges) : Bool × Ranges :=
  let (holds, after) := match g.first, g.bound with
    | none, _ => (true, ranges)
    | some a, none => (w.isAt a, ranges)
    | some a, some b =>
      -- A range whose end is a number at or before its first line has one line.
      let isBehind := match b with
        | .line n => n ≤ w.number
        | _ => false
      if ranges.contains place then
        (true, if w.isAt b || isBehind then ranges.filter (· ≠ place) else ranges)
      else if w.isAt a then
        (true, if isBehind || (w.isLast && b = .last) then ranges else place :: ranges)
      else (false, ranges)
  (holds != g.isNegated, after)

/-- The text from `start` on with some matches replaced. -/
def rebuilt (s : Regex.Subject) (parts : List Part) : (start : Nat) → List Regex.Match → List Char
  | start, [] => (s.chars.extract start s.chars.size).toList
  | start, m :: ms =>
    let replacement := parts.flatMap fun
      | .group n => (m.group? s n).getD []
      | .char c => [c]
    (s.chars.extract start m.start).toList ++ replacement ++ rebuilt s parts m.stop ms

def substitute (w : Cycle) (x : Substitution) : Cycle :=
  let s := Regex.Subject.ofChars x.foldsCase w.pattern
  let found := (x.regex.all s).drop (x.nth - 1)
  let found := if x.isGlobal then found else found.take 1
  if found.isEmpty then w
  else
    let w := { w with pattern := rebuilt s x.parts 0 found }
    if x.prints then w.putLine else w

def perform (w : Cycle) : Action → Cycle
  | .print => w.putLine
  | .delete => { w with isDeleted := true }
  | .quit => { w with isOver := true }
  | .number => { w with out := (Text.ofNat w.number ++ "\n" : Text).utf8 :: w.out }
  | .substitute s => w.substitute s

/-- Carries out commands, the first of which is at a place. -/
def performAll (w : Cycle) (ranges : Ranges) : (place : Nat) → List Command → Cycle × Ranges
  | _, [] => (w, ranges)
  | place, c :: more =>
    if w.isDeleted || w.isOver then (w, ranges)
    else
      let (isCarriedOut, ranges) := w.isGuarded place c.guard ranges
      (if isCarriedOut then w.perform c.action else w).performAll ranges (place + 1) more

end Cycle

/-- What a script prints for the lines of its input, and whether it goes on to their end. -/
def run (script : List Command) (isQuiet isOpen : Bool) :
    (number : Nat) → Ranges → List Line → List Bytes × Bool
  | _, _, [] => ([], true)
  | number, ranges, l :: rest =>
    let w : Cycle :=
      { pattern := l.chars, isWhole := l.isWhole, number, isLast := rest.isEmpty && !isOpen }
    let (w, ranges) := w.performAll ranges 0 script
    let w := if isQuiet || w.isDeleted then w else w.putLine
    if w.isOver then (w.out.reverse, false)
    else
      let (more, isToEnd) := run script isQuiet isOpen (number + 1) ranges rest
      (w.out.reverse ++ more, isToEnd)

/-! ### The command -/

/-- The lines of a file. -/
def linesFrom (data : Bytes) : List Line :=
  let lines := pieces (· = Stream.lineFeed) data
  let whole := lines.dropLast.map fun b => { chars := octetsOfBytes b : Line }
  match lines.getLast? with
  | some last@(_ :: _) => whole ++ [{ chars := octetsOfBytes last, isWhole := false }]
  | _ => whole

/-- What is read, one file after the other, and messages about those that cannot be read. -/
def inputs (c : Call) (paths : List Text) : List Line × Text :=
  paths.foldl (fun (found, err) (path : Text) =>
    match if path = "-" then .ok c.input else openSource c.files c.input path with
    | .ok s => (found ++ linesFrom (s.unrolled 3000).data, err)
    | .error e => (found, err ++ "sed: can't read " ++ path ++ ": " ++ systemText e ++ "\n"))
    ([], ([] : Text))

end Sed

namespace Utility

/-- Edits lines by a script. -/
def sed : Utility := fun c =>
  let table : OptionTable := { plain := "nEr", valued := "e" }
  let usage : Text :=
    "Usage: sed [OPTION]... \x7bscript-only-if-no-other-script\x7d [input-file]..."
  match table.read c.args with
  | .error e => misuse ("sed: " ++ e ++ "\n" ++ usage) 1
  | .ok o =>
    let isScripted := o.has 'e'
    if !isScripted && o.operands.isEmpty then misuse usage 1
    else
      let parts := if isScripted then o.values 'e' else o.operands.take 1
      let paths := if isScripted then o.operands else o.operands.tail
      match Sed.readScript (o.has 'E' || o.has 'r') (parts.map octets) with
      | .error e => misuse ("sed: " ++ e) 1
      | .ok script =>
        let isOpen := paths.isEmpty && c.input.all?.isNone
        let paths := if paths.isEmpty then [Text.ofString "-"] else paths
        let (lines, err) := Sed.inputs c paths
        let (out, isToEnd) := Sed.run script (o.has 'n') isOpen 1 [] lines
        some {
          out :=
            { data := out.flatten, remainder := if isOpen && isToEnd then .unknown else .ended }
          err, status := if err.isEmpty then 0 else 2 }

end Utility

end Posix

end CallerTree
