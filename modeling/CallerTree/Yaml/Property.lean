import CallerTree.Text.Utf8
import CallerTree.Yaml.Scalar

/-!
# Anchors, tags and directives

An anchor names a node and an alias refers to it. A tag says of what kind a node is; it is written
with a handle, which a directive in front of the document can give a meaning. Bytes of a tag can be
written as percent signs with two hexadecimal digits.
-/

namespace CallerTree

namespace Yaml

/-- A tag as it is written. Without a handle the suffix is the whole tag. -/
structure TagName where
  handle : List Char
  suffix : Text
  deriving DecidableEq, Repr

inductive Directive where
  | version (major minor : Nat)
  /-- What a handle stands for. -/
  | handle (name : List Char) (meaning : Text)
  deriving DecidableEq, Repr

/-! ### Anchors -/

/-- Characters that may follow an anchor directly. -/
def endsAnchor (c : Char) : Bool := ['?', ':', ',', ']', '\x7d', '%', '@', '\x60'].contains c

/-- Reads the name of an anchor or an alias whose indicator stands here. -/
def readAnchor : Scan (List Char) := do
  let context := (← get).mark
  Scan.skip
  let name ← Scan.readWhile isNameChar
  let c ← get
  if name.isEmpty || !(c.blankAt 0 || c.peek?.any endsAnchor) then
    Scan.fail context "did not find expected alphabetic or numeric character"
  return name

/-! ### Tags -/

/-- Reads a handle such as `!`, `!!` or `!name!`, or the start of a tag without one. -/
def readHandle : Scan (List Char) := do
  Scan.skip
  let name ← Scan.readWhile isNameChar
  if (← get).looksAt '!' then
    Scan.skip
    return '!' :: name ++ ['!']
  else return '!' :: name

def isTagChar (c : Char) : Bool :=
  isNameChar c || [';', '/', '?', ':', '@', '&', '=', '+', '$', '.', ',', '!', '~', '*', '\'', '(',
    ')', '[', ']', '%'].contains c

/-- Reads a byte that is written as a percent sign and two digits. -/
def readOctet (context : Mark) : Scan UInt8 := do
  Scan.need 3
  let c ← get
  match if c.looksAt '%' then c.hexAhead? 1 2 else none with
  | none => Scan.fail context "did not find URI escaped octet"
  | some n => do
    Scan.skipN 3
    return n.toUInt8

/-- Reads the further bytes of a character. -/
def readTrailing (context : Mark) : (count : Nat) → Scan Bytes
  | 0 => return []
  | count + 1 => do
    let b ← readOctet context
    if !isTrailingByte b then
      Scan.fail context "found an incorrect trailing UTF-8 octet"
    return b :: (← readTrailing context count)

/-- Reads the bytes of one character. -/
def readOctets (context : Mark) : Scan Text := do
  let b ← readOctet context
  let width := utf8Width b
  if width = 0 then Scan.fail context "found an incorrect leading UTF-8 octet"
  return Text.ofUtf8 (b :: (← readTrailing context (width - 1)))

/-- Reads the characters of a tag onto those before them, which stand in reverse. -/
def readTagChars (context : Mark) : (fuel : Nat) → (done : Text) → Scan Text
  | 0, done => return done.reverse
  | fuel + 1, done => do
    Scan.need 1
    match (← get).peek? with
    | none => return done.reverse
    | some '%' => do
      let t ← readOctets context
      readTagChars context fuel (t.reverse ++ done)
    | some d => do
      if !isTagChar d then return done.reverse
      Scan.skip
      readTagChars context fuel (.char d :: done)

/-- Reads the rest of a tag after its handle. -/
def readTagText (context : Mark) (isRequired : Bool) : Scan Text := do
  let text ← readTagChars context (← get).limit []
  if isRequired && text.isEmpty then Scan.fail context "did not find expected tag URI"
  return text

/-- Reads the tag that stands here. -/
def readTag : Scan TagName := do
  let context := (← get).mark
  Scan.need 2
  let tag ←
    if (← get).at? 1 == some '<' then do
      Scan.skipN 2
      let suffix ← readTagText context true
      if !(← get).looksAt '>' then Scan.fail context "did not find the expected '>'"
      Scan.skip
      pure ({ handle := [], suffix } : TagName)
    else do
      let handle ← readHandle
      if 1 < handle.length && handle.getLast? == some '!' then
        pure { handle, suffix := ← readTagText context true }
      else do
        let suffix := Text.ofChars handle.tail ++ (← readTagText context false)
        pure (if suffix.isEmpty then { handle := [], suffix := "!" }
          else { handle := ['!'], suffix })
  Scan.need 1
  if !(← get).blankAt 0 then
    Scan.fail context "did not find expected whitespace or line break"
  return tag

/-! ### Directives -/

/-- Reads digits onto the number that those before them make, if there are some. -/
def readDigits (context : Mark) : (room : Nat) → (value : Option Nat) → Scan Nat
  | room, value => do
    match (← get).peek?.bind fun d => Text.digit? d, value with
    | none, none => Scan.fail context "did not find expected version number"
    | none, some v => return v
    | some d, _ =>
      match room with
      | 0 => Scan.fail context "found extremely long version number"
      | room + 1 => do
        Scan.step
        readDigits context room (some (10 * value.getD 0 + d))

/-- Reads a number of at most two digits. -/
def readVersionNumber (context : Mark) : Scan Nat := do
  Scan.need 1
  readDigits context 2 none

def readVersion (context : Mark) : Scan Directive := do
  Scan.skipWhile isSpace
  let major ← readVersionNumber context
  if !(← get).looksAt '.' then
    Scan.fail context "did not find expected digit or '.' character"
  Scan.skip
  return .version major (← readVersionNumber context)

def readHandleMeaning (context : Mark) : Scan Directive := do
  Scan.skipWhile isSpace
  if !(← get).looksAt '!' then Scan.fail context "did not find expected '!'"
  let handle ← readHandle
  if handle.length ≠ 1 && handle.getLast? != some '!' then
    Scan.fail context "did not find expected '!'"
  Scan.need 1
  if !(← get).atSpace then Scan.fail context "did not find expected whitespace"
  Scan.skipWhile isSpace
  let meaning ← readTagText context true
  if !(← get).blankAt 0 then
    Scan.fail context "did not find expected whitespace or line break"
  return .handle handle meaning

/-- Reads the directive that stands here, and the rest of its line. -/
def readDirective : Scan Directive := do
  let context := (← get).mark
  Scan.skip
  let name ← Scan.readWhile isNameChar
  if name.isEmpty then Scan.fail context "could not find expected directive name"
  if !(← get).blankAt 0 then Scan.fail context "found unexpected non-alphabetical character"
  let directive ←
    if name = ['Y', 'A', 'M', 'L'] then readVersion context
    else if name = ['T', 'A', 'G'] then readHandleMeaning context
    else Scan.fail context "found unknown directive name"
  Scan.skipWhile isSpace
  if (← get).looksAt '#' then Scan.skipToBreak
  if !(← get).atBreakOrEnd then
    Scan.fail context "did not find expected comment or line break"
  if (← get).atBreak then Scan.skipLine
  return directive

end Yaml

end CallerTree
