import CallerTree.Text.Numeral
import CallerTree.Yaml.Source

/-!
# Positions in a YAML text

A cursor stands at a character of the text and knows its line and column. It sees a window of
characters that have been decoded; a reader asks for as many of them as it is going to look at. The
end of the text counts as blank.

## Contract

A fault of the text is an error for the reader whose request brings it to light (`Scan.need`). A
reader that only looks ahead (`Scan.glance`) notes it and goes on with what there is.
-/

namespace CallerTree

namespace Yaml

/-- A position, counted from zero. -/
structure Mark where
  index : Nat := 0
  line : Nat := 0
  column : Nat := 0
  deriving DecidableEq, Repr

/-- Why a text is no YAML document. -/
structure SyntaxError where
  /-- The line of the construct that is broken. -/
  contextLine : Nat := 0
  /-- The line where that shows. -/
  problemLine : Nat := 0
  /-- The text cannot even be cut into tokens. -/
  isLexical : Bool := false
  problem : Text
  deriving DecidableEq, Repr

/-- The line is left out when it is the first one. -/
def SyntaxError.text (e : SyntaxError) : Text :=
  let line := if e.contextLine ≠ 0 then e.contextLine else e.problemLine
  if line = 0 then "yaml: " ++ e.problem
  else "yaml: line " ++ Text.ofNat (if e.isLexical then line + 1 else line) ++ ": " ++ e.problem

/-- A fault without a position. -/
def fault (problem : Text) : SyntaxError := { problem }

def isBreak (c : Char) : Bool :=
  c == '\n' || c == '\r' || c == '\u0085' || c == '\u2028' || c == '\u2029'

def isSpace (c : Char) : Bool := c == ' ' || c == '\t'

/-- A character of a name, of an anchor for instance. -/
def isNameChar (c : Char) : Bool := c.isAlphanum || c == '_' || c == '-'

/-! ### Cursors -/

structure Cursor where
  /-- The characters that have been decoded, from the one at the cursor on. -/
  window : List Char := []
  /-- Their number, and behind the end of the text the number of times it has been met. -/
  ahead : Nat := 0
  /-- What has not been decoded. -/
  source : Source
  mark : Mark := {}
  /-- The character at which the window was filled the last time. -/
  front : Option Char := none
  /-- The number of line breaks since the last character that is no blank. -/
  breaks : Nat := 0
  /-- A fault that was seen ahead. -/
  seen : Option SyntaxError := none
  /-- A bound on the number of characters of the whole text. -/
  limit : Nat
  deriving Repr

namespace Cursor

def peek? (c : Cursor) : Option Char := c.window.head?

/-- The character `n` places further on. -/
def at? (c : Cursor) (n : Nat) : Option Char := c.window[n]?

def isAtEnd (c : Cursor) : Bool := c.window.isEmpty

def looksAt (c : Cursor) (d : Char) : Bool := c.peek? == some d

/-- A blank, a line break or the end stands `n` places further on. -/
def blankAt (c : Cursor) (n : Nat) : Bool := (c.at? n).all fun d => isSpace d || isBreak d

def atSpace (c : Cursor) : Bool := c.peek?.any isSpace

def atBreak (c : Cursor) : Bool := c.peek?.any isBreak

def atBreakOrEnd (c : Cursor) : Bool := c.peek?.all isBreak

/-- At the start of a text. -/
def ofBytes (bytes : Bytes) : Cursor :=
  { source := Source.ofBytes bytes, limit := bytes.length + 2 }

/-- Past one character that is no line break. -/
def skip (c : Cursor) : Cursor :=
  { c with
    window := c.window.tail
    ahead := c.ahead - 1
    mark := { c.mark with index := c.mark.index + 1, column := c.mark.column + 1 }
    breaks := if c.atSpace then c.breaks else 0 }

/-- Past a line break; a carriage return and a line feed are one. -/
def skipLine (c : Cursor) : Cursor :=
  let next := fun (n : Nat) (rest : List Char) =>
    { c with
      window := rest
      ahead := c.ahead - n
      mark := { index := c.mark.index + n, line := c.mark.line + 1, column := 0 }
      breaks := c.breaks + 1 }
  match c.window with
  | '\r' :: '\n' :: rest => next 2 rest
  | d :: rest => if isBreak d then next 1 rest else c
  | [] => c

/-- The text of the line break here: all but two kinds read as a line feed. -/
def breakText (c : Cursor) : List Char :=
  match c.peek? with
  | some '\u2028' => ['\u2028']
  | some '\u2029' => ['\u2029']
  | some d => if isBreak d then ['\n'] else []
  | none => []

/-- A marker of three characters at the start of a line. -/
def atMarker (c : Cursor) (marker : Char) : Bool :=
  c.mark.column == 0 && c.window.take 3 == [marker, marker, marker] && c.blankAt 3

def atDocumentMarker (c : Cursor) : Bool := c.atMarker '-' || c.atMarker '.'

/-- A lexical error found here, in a construct that began at `context`. -/
def error (c : Cursor) (context : Mark) (problem : Text) : SyntaxError :=
  { contextLine := context.line, problemLine := c.mark.line, isLexical := true, problem }

/-! ### The window -/

/-- Decodes batches until `n` characters are ahead, or the end or a fault is met. -/
def extend (n : Nat) : (fuel : Nat) → Cursor → Cursor × Option Text
  | 0, c => (c, none)
  | fuel + 1, c =>
    if n ≤ c.ahead then (c, none)
    else
      let (cs, source, problem) := c.source.batch
      let c' := { c with window := c.window ++ cs, ahead := c.ahead + cs.length, source }
      match problem with
      | some p => (c', some p)
      | none => if cs.isEmpty then ({ c' with ahead := c'.ahead + 1 }, none) else extend n fuel c'

/-- Makes sure that `n` characters are ahead, unless the text ends before. -/
def demand (n : Nat) (c : Cursor) : Cursor × Option Text :=
  if n ≤ c.ahead then (c, none)
  else
    let (c', problem) := extend n (n + 1) c
    ({ c' with front := c'.window.head? }, problem)

end Cursor

/-! ### Scanning -/

abbrev Scan := StateT Cursor (Except SyntaxError)

namespace Scan

/-- Asks for `n` characters ahead. -/
def need (n : Nat) : Scan Unit := do
  let (c, problem) := (← get).demand n
  set c
  match problem with
  | some p => throw (fault p)
  | none => return

/-- Asks for `n` characters ahead, in order to look at them only. -/
def glance (n : Nat) : Scan Bool := do
  let (c, problem) := (← get).demand n
  match problem with
  | some p => do
    set { c with seen := some (fault p) }
    return false
  | none => do
    set c
    return true

def skip : Scan Unit := modify Cursor.skip

def skipN (n : Nat) : Scan Unit := modify fun c => n.repeat Cursor.skip c

/-- Past one character, with the next one in view. -/
def step : Scan Unit := do
  skip
  need 1

/-- Past a line break, of which both characters are in view. -/
def skipLine : Scan Unit := do
  need 2
  modify Cursor.skipLine

/-- Reads a line break. -/
def readLine : Scan (List Char) := do
  need 2
  let c ← get
  set c.skipLine
  return c.breakText

def fail {α : Type} (context : Mark) (problem : Text) : Scan α := do
  throw ((← get).error context problem)

/-- Reads characters of a class onto those before them, which stand in reverse. -/
def readOnto (p : Char → Bool) : (fuel : Nat) → List Char → Scan (List Char)
  | 0, done => return done.reverse
  | fuel + 1, done => do
    match (← get).peek? with
    | some d => if p d then step; readOnto p fuel (d :: done) else return done.reverse
    | none => return done.reverse

/-- Reads characters of a class. -/
def readWhile (p : Char → Bool) : Scan (List Char) := do
  need 1
  readOnto p (← get).limit []

/-- Past the characters of a class. -/
def skipWhile (p : Char → Bool) : Scan Unit := do
  let _ ← readWhile p

/-- Past everything up to the end of the line. -/
def skipToBreak : Scan Unit := skipWhile (!isBreak ·)

/-! ### Comments -/

/-- The distance of the limit up to which comments are looked for. -/
def commentReach : Nat := 512

/-- The distance to a number sign behind blanks, from a distance on. With `overLines` one-byte line
breaks are passed too. -/
def commentAhead (overLines : Bool) : (fuel : Nat) → (distance : Nat) → Scan (Option Nat)
  | 0, _ => return none
  | fuel + 1, distance => do
    if !(← glance (distance + 1)) then return none
    match (← get).at? distance with
    | none => return none
    | some d =>
      if isSpace d || (overLines && (d == '\n' || d == '\r')) then
        commentAhead overLines fuel (distance + 1)
      else if d == '#' then return some distance
      else
        if overLines && isBreak d && 0 < fuel then let _ ← glance (distance + 2)
        return none

/-- Past a comment behind a token on the same line. -/
def skipLineComment : Scan Unit := do
  if (← get).breaks = 0 then
    match ← commentAhead false commentReach 0 with
    | some _ => do
      skipWhile isSpace
      skipToBreak
    | none => return

/-- Past blanks and line breaks up to a position. -/
def skipTo (index : Nat) : (fuel : Nat) → Scan Unit
  | 0 => return
  | fuel + 1 => do
    if (← get).mark.index < index then
      need 1
      if (← get).atBreak then skipLine else skip
      skipTo index fuel

/-- Past a comment and the comments on the lines after it. -/
def skipComments : (fuel : Nat) → Scan Unit
  | 0 => return
  | fuel + 1 => do
    skipToBreak
    let found ←
      if (← get).peek?.all fun d => d == '\n' || d == '\r' then
        commentAhead true (commentReach - 1) 1
      else do
        let _ ← glance 2
        pure none
    match found with
    | some distance =>
      let c ← get
      skipTo (c.mark.index + distance) distance
      skipComments fuel
    | none => return

end Scan

end Yaml

end CallerTree
