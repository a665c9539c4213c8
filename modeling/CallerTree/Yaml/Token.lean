import CallerTree.Yaml.Property
import Std.Data.TreeMap

/-!
# The tokens of a YAML text

Tokens are read on demand and wait in a queue. A key such as `a` in `a: 1` is recognised only at its
colon: until then the lexer remembers it as a pending key, and the key token is put in front of it
afterwards. A text is at fault only as far as it has been read: two tokens beyond the one that is
asked for, and further while that one is a pending key.

## Implementation notes

Indentation is made explicit by start and end tokens, so that a reader of tokens never looks at
columns. There is one slot for a pending key outside all flow collections and one in each that is
open. Which slot a token stands in is looked up by the token's number.
-/

namespace CallerTree

namespace Yaml

inductive Lexeme where
  | streamStart
  | streamEnd
  | directive (d : Directive)
  | documentStart
  | documentEnd
  | blockSequenceStart
  | blockMappingStart
  | blockEnd
  | flowSequenceStart
  | flowSequenceEnd
  | flowMappingStart
  | flowMappingEnd
  | blockEntry
  | flowEntry
  | key
  | value
  | reference (name : List Char)
  | anchor (name : List Char)
  | tag (t : TagName)
  | scalar (style : Style) (text : List Char)
  deriving DecidableEq, Repr

structure Token where
  lexeme : Lexeme
  mark : Mark
  deriving DecidableEq, Repr

/-- A token that turns out to be a key if a colon follows. -/
structure PendingKey where
  /-- It still can. -/
  possible : Bool := false
  /-- Nothing but a key can stand here. -/
  required : Bool := false
  /-- The number of the token, counted from the start of the text. -/
  number : Nat := 0
  mark : Mark := {}
  deriving DecidableEq, Repr

/-- A key is on one line and has at most 1024 characters. -/
def PendingKey.isNear (k : PendingKey) (now : Mark) : Bool :=
  !(k.mark.line < now.line || k.mark.index + 1024 < now.index)

/-- The depth to which collections may be nested. -/
def maxDepth : Nat := 10000

def tooDeep : Text := "exceeded max depth of 10000"

structure Lexer where
  cursor : Cursor
  /-- The column of the innermost block collection. -/
  indent : Int := -1
  /-- The columns of the block collections around it, the innermost last. -/
  outer : Array Int := #[]
  /-- A key may start here. -/
  keyAllowed : Bool := true
  /-- The slots for pending keys, the innermost last. -/
  keys : Array PendingKey := #[{}]
  /-- The slots of the tokens that were noted as pending keys. -/
  slotOf : Std.TreeMap Nat Nat := {}
  /-- All tokens so far. -/
  tokens : Array Token := #[⟨.streamStart, {}⟩]
  /-- The number of tokens that have left the queue. -/
  taken : Nat := 0

abbrev Lex := StateT Lexer (Except SyntaxError)

namespace Lexer

def inFlow (l : Lexer) : Bool := 1 < l.keys.size

/-- The pending key of this level. -/
def key (l : Lexer) : PendingKey := l.keys.back?.getD {}

/-- Moves the cursor. -/
def scan {α : Type} (x : Scan α) : Lex α := fun l => do
  let (a, cursor) ← x.run l.cursor
  return (a, { l with cursor })

def cursorNow : Lex Cursor := return (← get).cursor

def here : Lex Mark := return (← get).cursor.mark

/-- Puts a token at the end of the queue. -/
def push (lexeme : Lexeme) (mark : Mark) : Lex Unit :=
  modify fun l => { l with tokens := l.tokens.push ⟨lexeme, mark⟩ }

/-- Puts a token in front of the one with the given number, or at the end of the queue if that one
has left it. -/
def insert (number : Nat) (lexeme : Lexeme) (mark : Mark) : Lex Unit :=
  modify fun l => { l with
    tokens :=
      if number < l.taken then l.tokens.push ⟨lexeme, mark⟩
      else l.tokens.insertIdxIfInBounds number ⟨lexeme, mark⟩ }

def allowKey (b : Bool) : Lex Unit := modify fun l => { l with keyAllowed := b }

def fail {α : Type} (context : Mark) (problem : Text) : Lex α := scan (Scan.fail context problem)

/-! ### Indentation -/

/-- Opens a block collection at a column to the right of the current one, in front of the token with
the given number or at the end of the queue. -/
def openBlock (column : Nat) (lexeme : Lexeme) (mark : Mark) (number : Option Nat) : Lex Unit := do
  let isInside := fun (l : Lexer) => !l.inFlow && l.indent < column
  if isInside (← get) then
    modify fun l => { l with indent := column, outer := l.outer.push l.indent }
    if maxDepth < (← get).outer.size then fail (← get).key.mark tooDeep
    match number with
    | none => push lexeme mark
    | some n => insert n lexeme mark

/-- Closes the block collections to the right of a column. -/
def closeFrom (column : Int) (mark : Mark) : (fuel : Nat) → Lex Unit
  | 0 => return
  | fuel + 1 => do
    if column < (← get).indent then
      push .blockEnd mark
      modify fun l => { l with indent := l.outer.back?.getD (-1), outer := l.outer.pop }
      closeFrom column mark fuel

def closeBlocks (column : Int) (mark : Mark) : Lex Unit := do
  if !(← get).inFlow then closeFrom column mark ((← get).outer.size + 1)

/-! ### Pending keys -/

def noColon : Text := "could not find expected ':'"

/-- Changes the innermost slot. -/
def setKey (k : PendingKey) : Lex Unit :=
  modify fun l => { l with keys := l.keys.pop.push k }

/-- Gives up the pending key of this level. -/
def dropKey : Lex Unit := do
  let k := (← get).key
  if k.possible then
    if k.required then fail k.mark noColon
    setKey { k with possible := false }
    modify fun l => { l with slotOf := l.slotOf.erase k.number }

/-- Notes that a key may start here. -/
def noteKey : Lex Unit := do
  if (← get).keyAllowed then
    dropKey
    modify fun l =>
      let number := l.tokens.size
      let k : PendingKey :=
        { possible := true
          required := !l.inFlow && l.indent == l.cursor.mark.column
          number
          mark := l.cursor.mark }
      { l with keys := l.keys.pop.push k, slotOf := l.slotOf.insert number (l.keys.size - 1) }

/-- Whether the key in a slot can still be one. -/
def isLive (slot : Nat) : Lex Bool := do
  let k := (← get).keys[slot]?.getD {}
  if !k.possible then return false
  if k.isNear (← here) then return true
  if k.required then fail k.mark noColon
  modify fun l => { l with keys := l.keys.setIfInBounds slot { k with possible := false } }
  return false

/-! ### Blanks and comments -/

/-- Past a byte order mark at the start of a line. -/
def skipByteOrderMark : Scan Unit := do
  Scan.need 1
  let c ← get
  if c.mark.column == 0 && c.front == some '\ufeff' then Scan.skip

/-- Past everything in front of the next token. Tabs may not stand where a key can start. -/
def skipToToken : (fuel : Nat) → Lex Unit
  | 0 => return
  | fuel + 1 => do
    let tabs := fun (l : Lexer) => l.inFlow || !l.keyAllowed
    let tabs := tabs (← get)
    scan skipByteOrderMark
    scan (Scan.skipWhile fun d => d == ' ' || (d == '\t' && tabs))
    let c ← cursorNow
    if c.looksAt '#' then scan (Scan.skipComments c.limit)
    if (← cursorNow).atBreak then
      scan Scan.skipLine
      modify fun l => { l with keyAllowed := l.keyAllowed || !l.inFlow }
      skipToToken fuel

/-! ### One token -/

/-- Reads a token of which the cursor has the whole text. -/
def token {α : Type} (x : Scan α) (lexeme : α → Lexeme) : Lex Unit := do
  let mark ← here
  let a ← scan x
  push (lexeme a) mark

/-- An indicator of one character. -/
def single (lexeme : Lexeme) : Lex Unit := token Scan.skip fun _ => lexeme

def startFlow (lexeme : Lexeme) : Lex Unit := do
  noteKey
  modify fun l => { l with
    keys := l.keys.push { number := l.tokens.size, mark := l.cursor.mark } }
  if maxDepth + 1 < (← get).keys.size then fail (← here) tooDeep
  allowKey true
  single lexeme

def endFlow (lexeme : Lexeme) : Lex Unit := do
  dropKey
  modify fun l =>
    if l.inFlow then { l with slotOf := l.slotOf.erase l.key.number, keys := l.keys.pop } else l
  allowKey false
  single lexeme

/-- A block indicator that opens a collection at its column if there is none. -/
def openHere (lexeme : Lexeme) (refusal : Text) : Lex Unit := do
  if !(← get).inFlow then
    let mark ← here
    if !(← get).keyAllowed then fail mark refusal
    openBlock mark.column lexeme mark none

def readValue : Lex Unit := do
  if ← isLive ((← get).keys.size - 1) then
    let k := (← get).key
    insert k.number .key k.mark
    openBlock k.mark.column .blockMappingStart k.mark (some k.number)
    setKey { k with possible := false }
    modify fun l => { l with slotOf := l.slotOf.erase k.number, keyAllowed := false }
  else
    openHere .blockMappingStart "mapping values are not allowed in this context"
    modify fun l => { l with keyAllowed := !l.inFlow }
  single .value

/-- Closes all blocks in front of a token that belongs to no document. -/
def leaveDocument : Lex Unit := do
  closeBlocks (-1) (← here)
  dropKey
  allowKey false

def readStreamEnd : Lex Unit := do
  modify fun l =>
    let m := l.cursor.mark
    if m.column = 0 then l
    else { l with cursor.mark := { m with line := m.line + 1, column := 0 } }
  leaveDocument
  push .streamEnd (← here)

def readDocumentMarker (lexeme : Lexeme) : Lex Unit := do
  leaveDocument
  token (Scan.skipN 3) fun _ => lexeme

/-- Reads an anchor, a tag or a scalar, which can be a key. -/
def content {α : Type} (x : Scan α) (lexeme : α → Lexeme) : Lex Unit := do
  noteKey
  allowKey false
  token x lexeme

def readQuotedToken (isSingle : Bool) : Lex Unit := do
  let context ← here
  let limit := (← cursorNow).limit
  content
    (do Scan.skip; readQuoted isSingle context limit [])
    (.scalar (if isSingle then .single else .double))

def readBlockToken (style : Style) : Lex Unit := do
  dropKey
  allowKey true
  token (readBlock style (← get).indent) (.scalar style)

def readPlainToken : Lex Unit := do
  noteKey
  allowKey false
  let mark ← here
  let inFlow := (← get).inFlow
  let indent := ((← get).indent + 1).toNat
  let (text, broken) ← scan (readPlain inFlow indent mark (← cursorNow).limit {} [])
  if broken then allowKey true
  push (.scalar .plain text) mark

/-- Characters that cannot start a plain scalar. -/
def isIndicator (c : Char) : Bool :=
  ['-', '?', ':', ',', '[', ']', '\x7b', '\x7d', '#', '&', '*', '!', '|', '>', '\'', '"', '%', '@',
    '\x60'].contains c

def startsPlain (inFlow : Bool) (c : Cursor) : Bool :=
  c.peek?.any fun d =>
    !(isSpace d || isBreak d || isIndicator d) ||
      (d == '-' && !(c.at? 1).any isSpace) ||
      (!inFlow && (d == '?' || d == ':') && !c.blankAt 1)

/-- Reads the token here. Returns whether a comment on the same line belongs to it. -/
def readToken (c : Cursor) (inFlow : Bool) : Lex Bool := do
  match c.peek? with
  | none => do
    readStreamEnd
    return false
  | some d =>
    if c.mark.column == 0 && d == '%' then
      leaveDocument
      token readDirective .directive
      return false
    else if c.atMarker '-' then
      readDocumentMarker .documentStart
      return false
    else if c.atMarker '.' then
      readDocumentMarker .documentEnd
      return false
    else if d == '[' then startFlow .flowSequenceStart
    else if d == '\x7b' then startFlow .flowMappingStart
    else if d == ']' then endFlow .flowSequenceEnd
    else if d == '\x7d' then endFlow .flowMappingEnd
    else if d == ',' then dropKey; allowKey true; single .flowEntry
    else if d == '-' && c.blankAt 1 then
      openHere .blockSequenceStart "block sequence entries are not allowed in this context"
      dropKey
      allowKey true
      single .blockEntry
      return false
    else if d == '?' && (inFlow || c.blankAt 1) then
      openHere .blockMappingStart "mapping keys are not allowed in this context"
      dropKey
      allowKey (!inFlow)
      single .key
    else if d == ':' && (inFlow || c.blankAt 1) then readValue
    else if d == '*' then content readAnchor .reference
    else if d == '&' then content readAnchor .anchor
    else if d == '!' then content readTag .tag
    else if d == '|' && !inFlow then readBlockToken .literal
    else if d == '>' && !inFlow then readBlockToken .folded
    else if d == '\'' then readQuotedToken true
    else if d == '"' then readQuotedToken false
    else if startsPlain inFlow c then readPlainToken
    else fail c.mark "found character that cannot start any token"
  return true

/-- Reads one token, with the starts and ends of blocks that belong to it, into the queue. -/
def fetch : Lex Unit := do
  scan (Scan.need 1)
  let start ← here
  skipToToken (← cursorNow).limit
  closeBlocks (← here).column start
  scan (Scan.need 4)
  if ← readToken (← cursorNow) (← get).inFlow then scan Scan.skipLineComment

/-- The first token of the queue is settled, and two more are known. -/
def isFilled : Lex Bool := do
  let known := fun (l : Lexer) => l.taken + 2 < l.tokens.size
  if !known (← get) then return false
  let slot := fun (l : Lexer) => l.slotOf[l.taken]?
  match slot (← get) with
  | none => return true
  | some slot => return !(← isLive slot)

/-- Fills the queue until its first token is settled. -/
def fill : (fuel : Nat) → Lex Unit
  | 0 => return
  | fuel + 1 => do
    if !(← isFilled) then
      fetch
      fill fuel

/-- The next token, which stays in the queue. -/
def peek : Lex Token := do
  fill ((← cursorNow).limit + 4)
  let head := fun (l : Lexer) => l.tokens[l.taken]?.getD ⟨.streamEnd, l.cursor.mark⟩
  return head (← get)

/-- Takes the next token off the queue. -/
def skip : Lex Unit := modify fun l => { l with taken := l.taken + 1 }

end Lexer

end Yaml

end CallerTree
