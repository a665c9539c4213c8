import CallerTree.Text.Utf8

/-!
# Request targets

The target of a request is a path and a query, both percent-encoded. A fragment is dropped.
-/

namespace CallerTree

namespace Http

/-! ### Percent encoding -/

/-- The value of a hexadecimal digit. -/
def hexByte? (b : UInt8) : Option UInt8 :=
  if 48 ≤ b ∧ b ≤ 57 then some (b - 48)
  else if 97 ≤ b ∧ b ≤ 102 then some (b - 87)
  else if 65 ≤ b ∧ b ≤ 70 then some (b - 55)
  else none

/-- Decodes bytes; in a query a plus sign is a blank. -/
def decodeBytes? (inQuery : Bool) : Bytes → Option Bytes
  | [] => some []
  | b :: rest =>
    if b = 37 then
      match rest with
      | hi :: lo :: rest => do
        return (16 * (← hexByte? hi) + (← hexByte? lo)) :: (← decodeBytes? inQuery rest)
      | _ => none
    else do return (if inQuery && b = 43 then 32 else b) :: (← decodeBytes? inQuery rest)

/-- Decodes a text, unless a percent sign is not followed by two hexadecimal digits. -/
def decode? (inQuery : Bool) (t : Text) : Option Text :=
  (decodeBytes? inQuery t.utf8).map Text.ofUtf8

/-- Bytes that stand for themselves in a path. -/
def isPathByte (b : UInt8) : Bool :=
  let c := Char.ofNat b.toNat
  b < 128 && (c.isAlphanum ||
    ['-', '_', '.', '~', '$', '&', '+', ',', '/', ':', ';', '=', '@'].contains c)

/-- Bytes that may stand in a path as it was sent. -/
def isSentByte (b : UInt8) : Bool :=
  isPathByte b ||
    (b < 128 && ['!', '\'', '(', ')', '*', '[', ']', '%'].contains (Char.ofNat b.toNat))

def encodeByte (b : UInt8) : Text :=
  if isPathByte b then [.char (Char.ofNat b.toNat)]
  else Text.ofChars (['%'] ++ [b / 16, b % 16].map fun d =>
    Char.ofNat (if d < 10 then d.toNat + 48 else d.toNat + 55))

/-- Encodes a path. -/
def encode (t : Text) : Text := t.utf8.flatMap encodeByte

/-! ### Targets -/

structure Target where
  /-- The path, decoded. -/
  path : Text
  /-- The path as it was sent, encoded anew if it was not sent properly. -/
  sentPath : Text
  query : Text
  deriving DecidableEq, Repr

namespace Target

/-- Splits off a scheme: letters, and behind the first of them also digits, `+`, `-` and `.`, up to
a colon. -/
def cutScheme (t : Text) : Option Text × Text :=
  let isLetter := fun (g : Glyph) => g.toChar.isAlpha
  let isSchemeGlyph := fun (g : Glyph) =>
    isLetter g || g.toChar.isDigit || [Glyph.char '+', .char '-', .char '.'].contains g
  match (t.takeWhile isSchemeGlyph, t.dropWhile isSchemeGlyph) with
  | (g :: scheme, .char ':' :: rest) =>
    if isLetter g then (some (g :: scheme), rest) else (none, t)
  | _ => (none, t)

/-- The path behind a scheme and a host. A path that does not begin with a slash is none behind a
scheme, and has no colon in its first segment otherwise. -/
def pathPart? (scheme : Option Text) (t : Text) : Option Text :=
  if !t.startsWith "/" then
    if scheme.isSome then some []
    else if (t.takeWhile (· ≠ .char '/')).contains (.char ':') then none
    else some t
  else if (scheme.isSome || !t.startsWith "///") && t.startsWith "//" then
    some ((t.drop 2).dropWhile (· ≠ .char '/'))
  else some t

/-- Reads a target; one with control characters or a wrong encoding is none. -/
def ofText? (t : Text) : Option Target := do
  guard (!(t.utf8.any fun b => b < 32 || b = 127))
  let (t, fragment) := (Text.cut? t '#').getD (t, [])
  guard (decode? false fragment).isSome
  if t = "*" then return { path := "*", sentPath := "*", query := [] }
  let (scheme, rest) := cutScheme t
  let (rest, query) := (Text.cut? rest '?').getD (rest, [])
  let sent ← pathPart? scheme rest
  let path ← decode? false sent
  return { path, query, sentPath := if sent.utf8.all isSentByte then sent else encode path }

/-- One pair of a query. Pairs with a semicolon or a wrong encoding are dropped. -/
def pair? (t : Text) : Option (Text × Text) := do
  if t.isEmpty || t.contains ";" then none
  let (key, value) := (Text.cut? t '=').getD (t, [])
  return (← decode? true key, ← decode? true value)

/-- The value of a parameter; the first one counts, and one that is missing is empty. -/
def parameter (t : Target) (name : Text) : Text :=
  (((t.query.split '&').filterMap pair?).lookup name).getD []

end Target

end Http

end CallerTree
