import CallerTree.Yaml.Cursor

/-!
# The texts of YAML scalars

A scalar is written plain, between quotes, or as a block of lines. Line breaks inside plain and
quoted scalars are folded: a single one reads as a blank, and of several the first is dropped.

## Implementation notes

Texts are gathered in reverse. Every reader asks for exactly the characters it looks at, because a
fault of the text shows no earlier than that.
-/

namespace CallerTree

namespace Yaml

inductive Style where
  | plain
  | single
  | double
  | literal
  | folded
  deriving DecidableEq, Repr

/-! ### Gaps

What stands between two pieces of a scalar: blanks on one line, or line breaks. -/

structure Gap where
  /-- Blanks on the line of the piece before, in reverse. -/
  blanks : List Char := []
  /-- The first line break. -/
  lead : List Char := []
  /-- The further line breaks, in reverse. -/
  trail : List Char := []
  /-- A line break, possibly an escaped one, was met. -/
  broken : Bool := false
  deriving Repr

/-- The characters that a gap stands for, in reverse. -/
def Gap.folded (g : Gap) : List Char :=
  if g.broken then
    if g.lead = ['\n'] then if g.trail.isEmpty then [' '] else g.trail
    else g.trail ++ g.lead
  else g.blanks

/-- Reads blanks and line breaks. In a plain scalar a tab may not stand before column `indent` of a
continuation line. -/
def readGap (context : Mark) (plainIndent : Option Nat) : (fuel : Nat) → Gap → Scan Gap
  | 0, g => return g
  | fuel + 1, g => do
    let c ← get
    if c.atSpace then
      if g.broken && c.looksAt '\t' && plainIndent.any (c.mark.column < ·) then
        Scan.fail context "found a tab character that violates indentation"
      Scan.step
      let blanks := c.peek?.toList ++ g.blanks
      readGap context plainIndent fuel (if g.broken then g else { g with blanks })
    else if c.atBreak then
      let line ← Scan.readLine
      Scan.need 1
      readGap context plainIndent fuel
        (if g.broken then { g with trail := line ++ g.trail }
        else { g with blanks := [], lead := line, broken := true })
    else return g

/-! ### Plain scalars -/

/-- Whether a plain scalar ends before the character here. -/
def endsPlain (inFlow : Bool) (c : Cursor) : Bool :=
  (c.looksAt ':' && c.blankAt 1) ||
    (inFlow && c.peek?.any ([',', '?', '[', ']', '\x7b', '\x7d'].contains ·))

/-- Reads the non-blank characters up to the end of a piece of a plain scalar, in reverse. -/
def plainPiece (inFlow : Bool) : (fuel : Nat) → (done : List Char) → Scan (List Char)
  | 0, done => return done
  | fuel + 1, done => do
    let c ← get
    match c.peek? with
    | none => return done
    | some d =>
      if isSpace d || isBreak d || endsPlain inFlow c then return done
      Scan.skip
      Scan.need 2
      plainPiece inFlow fuel (d :: done)

/-- Reads a plain scalar: its text, and whether a line break followed it. `indent` is the least
column of a continuation line outside flow collections. -/
def readPlain (inFlow : Bool) (indent : Nat) (context : Mark) :
    (fuel : Nat) → Gap → (done : List Char) → Scan (List Char × Bool)
  | 0, gap, done => return (done.reverse, gap.broken)
  | fuel + 1, gap, done => do
    Scan.need 4
    let c ← get
    if c.atDocumentMarker || c.looksAt '#' then return (done.reverse, gap.broken)
    let piece ← plainPiece inFlow c.limit []
    let done := if piece.isEmpty then done else piece ++ gap.folded ++ done
    let gap := if piece.isEmpty then gap else {}
    let c ← get
    if !(c.atSpace || c.atBreak) then return (done.reverse, gap.broken)
    let gap ← readGap context (some indent) c.limit gap
    let c ← get
    if !inFlow && c.mark.column < indent then return (done.reverse, gap.broken)
    readPlain inFlow indent context fuel gap done

/-! ### Quoted scalars -/

def hexValue? (c : Char) : Option Nat :=
  if c.isDigit then some (c.toNat - 48)
  else if 'a' ≤ c ∧ c ≤ 'f' then some (c.toNat - 87)
  else if 'A' ≤ c ∧ c ≤ 'F' then some (c.toNat - 55)
  else none

/-- The number that the next characters are as hexadecimal digits, if all of them are. -/
def Cursor.hexAhead? (c : Cursor) (start digits : Nat) : Option Nat :=
  (List.range digits).foldlM (fun v i => do return v * 16 + (← hexValue? (← c.at? (start + i)))) 0

/-- The character that a letter stands for after a backslash. -/
def escape? : Char → Option Char
  | '0' => some '\x00'
  | 'a' => some '\x07'
  | 'b' => some '\x08'
  | 't' => some '\t'
  | '\t' => some '\t'
  | 'n' => some '\n'
  | 'v' => some '\x0b'
  | 'f' => some '\x0c'
  | 'r' => some '\r'
  | 'e' => some '\x1b'
  | ' ' => some ' '
  | '"' => some '"'
  | '\'' => some '\''
  | '\\' => some '\\'
  | 'N' => some '\u0085'
  | '_' => some '\u00a0'
  | 'L' => some '\u2028'
  | 'P' => some '\u2029'
  | _ => none

/-- The number of hexadecimal digits that a letter asks for after a backslash. -/
def hexDigits? : Char → Option Nat
  | 'x' => some 2
  | 'u' => some 4
  | 'U' => some 8
  | _ => none

/-- Reads an escape whose backslash stands here. -/
def readEscape (context : Mark) : Scan Char := do
  let d := ((← get).at? 1).getD '\x00'
  match escape? d, hexDigits? d with
  | some e, _ => do
    Scan.skipN 2
    return e
  | none, none => Scan.fail context "found unknown escape character"
  | none, some n => do
    Scan.skipN 2
    Scan.need n
    match (← get).hexAhead? 0 n with
    | none => Scan.fail context "did not find expected hexdecimal number"
    | some value =>
      if 0xD800 ≤ value ∧ value ≤ 0xDFFF ∨ 0x10FFFF < value then
        Scan.fail context "found invalid Unicode character escape code"
      Scan.skipN n
      return Char.ofNat value

def quote (isSingle : Bool) : Char := if isSingle then '\'' else '"'

/-- Reads the non-blank characters of a piece of a quoted scalar, in reverse, and says whether an
escaped line break ended it. -/
def quotedPiece (isSingle : Bool) (context : Mark) :
    (fuel : Nat) → (done : List Char) → Scan (List Char × Bool)
  | 0, done => return (done, false)
  | fuel + 1, done => do
    let c ← get
    match c.peek? with
    | none => return (done, false)
    | some d =>
      if isSpace d || isBreak d then return (done, false)
      if isSingle && d == '\'' && c.at? 1 == some '\'' then
        Scan.skipN 2
        Scan.need 2
        quotedPiece isSingle context fuel ('\'' :: done)
      else if d == quote isSingle then return (done, false)
      else if !isSingle && d == '\\' && (c.at? 1).any isBreak then
        Scan.need 3
        Scan.skip
        Scan.skipLine
        return (done, true)
      else if !isSingle && d == '\\' then
        let e ← readEscape context
        Scan.need 2
        quotedPiece isSingle context fuel (e :: done)
      else
        Scan.skip
        Scan.need 2
        quotedPiece isSingle context fuel (d :: done)

/-- Reads a quoted scalar after its opening quote, up to and including the closing one. -/
def readQuoted (isSingle : Bool) (context : Mark) :
    (fuel : Nat) → (done : List Char) → Scan (List Char)
  | 0, _ => Scan.fail context "found unexpected end of stream"
  | fuel + 1, done => do
    Scan.need 4
    let c ← get
    if c.atDocumentMarker then Scan.fail context "found unexpected document indicator"
    if c.isAtEnd then Scan.fail context "found unexpected end of stream"
    let (done, broken) ← quotedPiece isSingle context c.limit done
    Scan.need 1
    if (← get).looksAt (quote isSingle) then
      Scan.skip
      return done.reverse
    -- An escaped line break joins the pieces without a blank.
    let gap ← readGap context none c.limit { broken }
    readQuoted isSingle context fuel (gap.folded ++ done)

/-! ### Block scalars -/

inductive Chomp where
  | strip
  | clip
  | keep
  deriving DecidableEq, Repr

/-- Reads the indicator of what happens to line breaks at the end, if there is one. -/
def readChomp : Scan (Option Chomp) := do
  Scan.need 1
  match (← get).peek? with
  | some '+' => do
    Scan.skip
    return some .keep
  | some '-' => do
    Scan.skip
    return some .strip
  | _ => return none

/-- Reads an explicit indentation, if there is one. -/
def readIncrement (context : Mark) : Scan (Option Nat) := do
  Scan.need 1
  match (← get).peek?.bind fun d => Text.digit? d with
  | none => return none
  | some 0 => Scan.fail context "found an indentation indicator equal to 0"
  | some n => do
    Scan.skip
    return some n

/-- Reads the header of a block scalar after its indicator. Its two parts stand in either order. -/
def readBlockHeader (context : Mark) : Scan (Chomp × Option Nat) := do
  match ← readChomp with
  | some chomp => return (chomp, ← readIncrement context)
  | none =>
    match ← readIncrement context with
    | some n => return ((← readChomp).getD .clip, some n)
    | none => return (.clip, none)

/-- Past the blanks of an indentation, at most up to the given column unless it is 0. -/
def skipIndent (indent : Nat) : (fuel : Nat) → Scan Unit
  | 0 => return
  | fuel + 1 => do
    let c ← get
    if (indent = 0 || c.mark.column < indent) && c.looksAt ' ' then
      Scan.step
      skipIndent indent fuel

/-- Reads blank lines before a line of a block scalar. `indent` is 0 while it is not known; the
result holds the widest blank lead seen, and the line breaks. -/
def readBlockBreaks (context : Mark) (indent : Nat) :
    (fuel : Nat) → (widest : Nat) → (breaks : List Char) → Scan (Nat × List Char)
  | 0, widest, breaks => return (widest, breaks.reverse)
  | fuel + 1, widest, breaks => do
    Scan.need 1
    skipIndent indent (← get).limit
    let c ← get
    let widest := max widest c.mark.column
    if (indent = 0 || c.mark.column < indent) && c.looksAt '\t' then
      Scan.fail context "found a tab character where an indentation space is expected"
    if !c.atBreak then return (widest, breaks.reverse)
    let line ← Scan.readLine
    readBlockBreaks context indent fuel widest (line ++ breaks)

/-- What a line break between two lines of a block scalar reads as. -/
def blockJoint (style : Style) (lead trail : List Char) (blankBefore blankAfter : Bool) :
    List Char :=
  if style = .folded && !blankBefore && !blankAfter && lead = ['\n'] then
    if trail.isEmpty then [' '] else trail
  else lead ++ trail

/-- Reads the lines of a block scalar. `lead` and `trail` are the line breaks since the last one. -/
def readBlockLines (style : Style) (chomp : Chomp) (indent : Nat) (context : Mark) :
    (fuel : Nat) → (lead trail : List Char) → (blankBefore : Bool) → (done : List Char) →
      Scan (List Char)
  | 0, _, _, _, done => return done.reverse
  | fuel + 1, lead, trail, blankBefore, done => do
    let c ← get
    if c.mark.column = indent && !c.isAtEnd then
      let joint := blockJoint style lead trail blankBefore c.atSpace
      let line ← Scan.readWhile (!isBreak ·)
      let lead ← Scan.readLine
      let (_, trail) ← readBlockBreaks context indent c.limit 0 []
      readBlockLines style chomp indent context fuel lead trail c.atSpace
        (line.reverse ++ joint.reverse ++ done)
    else
      let tail := match chomp with
        | .strip => []
        | .clip => lead
        | .keep => lead ++ trail
      return done.reverse ++ tail

/-- Reads a block scalar whose indicator stands here, inside a block of the given indentation. -/
def readBlock (style : Style) (parentIndent : Int) : Scan (List Char) := do
  let context := (← get).mark
  Scan.skip
  let (chomp, increment) ← readBlockHeader context
  Scan.skipWhile isSpace
  if (← get).looksAt '#' then Scan.skipToBreak
  let c ← get
  if !c.atBreakOrEnd then
    Scan.fail context "did not find expected comment or line break"
  if c.atBreak then Scan.skipLine
  let given := match increment with
    | none => 0
    | some n => if 0 ≤ parentIndent then parentIndent.toNat + n else n
  let (widest, trail) ← readBlockBreaks context given c.limit 0 []
  let indent := if given = 0 then max (max widest (parentIndent + 1).toNat) 1 else given
  readBlockLines style chomp indent context c.limit [] trail false []

end Yaml

end CallerTree
