import CallerTree.Text.Utf8

/-!
# The characters of a YAML text

A text is encoded in UTF-8 or, behind a byte order mark, in UTF-16. It is decoded in batches, so
that what is wrong with its end is not noticed before the end is needed.

## Contract

`Source.batch` gives the characters of one batch and what is left. A character of which only the
first bytes are in the batch is left for the next one; at the end of the text it is a fault. Behind
a fault nothing is decoded, and the fault shows again with every further batch.
-/

namespace CallerTree

namespace Yaml

/-- Characters that may stand in a YAML text. -/
def isAllowed (n : Nat) : Bool :=
  n = 9 || n = 0xA || n = 0xD || (0x20 ≤ n && n ≤ 0x7E) || n = 0x85 || (0xA0 ≤ n && n ≤ 0xD7FF) ||
    (0xE000 ≤ n && n ≤ 0xFFFD) || (0x10000 ≤ n && n ≤ 0x10FFFF)

/-- What the next bytes of a text stand for. -/
inductive Decoded where
  | char (c : Char) (rest : Bytes)
  /-- The bytes are only the start of a character. -/
  | cutOff (problem : Text)
  | wrong (problem : Text)
  deriving DecidableEq, Repr

/-- A character, if it may stand in a text. -/
def Decoded.ofCode (n : Nat) (rest : Bytes) : Decoded :=
  if isAllowed n then .char (Char.ofNat n) rest else .wrong "control characters are not allowed"

/-! ### UTF-8 -/

/-- The length of the sequence that a byte starts, or zero if it starts none. -/
def utf8Width (b : UInt8) : Nat :=
  if b < 0x80 then 1
  else if b < 0xC0 then 0
  else if b < 0xE0 then 2
  else if b < 0xF0 then 3
  else if b < 0xF8 then 4
  else 0

/-- The least number that takes a sequence of the given length. -/
def leastOfWidth : Nat → Nat
  | 2 => 0x80
  | 3 => 0x800
  | 4 => 0x10000
  | _ => 0

/-- The bits of a number that its first byte holds. -/
def leadBits (width : Nat) (b : UInt8) : Nat :=
  match width with
  | 2 => b.toNat - 0xC0
  | 3 => b.toNat - 0xE0
  | 4 => b.toNat - 0xF0
  | _ => b.toNat

def isTrailingByte (b : UInt8) : Bool := 0x80 ≤ b && b < 0xC0

def decodeUtf8 : Bytes → Decoded
  | [] => .cutOff []
  | b :: rest =>
    let width := utf8Width b
    let trailing := rest.take (width - 1)
    if width = 0 then .wrong "invalid leading UTF-8 octet"
    else if trailing.length < width - 1 then .cutOff "incomplete UTF-8 octet sequence"
    else if !trailing.all isTrailingByte then .wrong "invalid trailing UTF-8 octet"
    else
      let n := trailing.foldl (fun n b => n * 64 + (b.toNat - 0x80)) (leadBits width b)
      if n < leastOfWidth width then .wrong "invalid length of a UTF-8 sequence"
      else if (0xD800 ≤ n ∧ n ≤ 0xDFFF) ∨ 0x10FFFF < n then .wrong "invalid Unicode character"
      else .ofCode n (rest.drop (width - 1))

/-! ### UTF-16 -/

/-- The number that two bytes stand for. -/
def unit16 (lowFirst : Bool) (a b : UInt8) : Nat :=
  if lowFirst then a.toNat + 256 * b.toNat else 256 * a.toNat + b.toNat

def decodeUtf16 (lowFirst : Bool) : Bytes → Decoded
  | a :: b :: rest =>
    let n := unit16 lowFirst a b
    if 0xDC00 ≤ n ∧ n ≤ 0xDFFF then .wrong "unexpected low surrogate area"
    else if 0xD800 ≤ n ∧ n ≤ 0xDBFF then
      match rest with
      | c :: d :: rest =>
        let m := unit16 lowFirst c d
        if 0xDC00 ≤ m ∧ m ≤ 0xDFFF then
          .ofCode (0x10000 + (n - 0xD800) * 0x400 + (m - 0xDC00)) rest
        else .wrong "expected low surrogate area"
      | _ => .cutOff "incomplete UTF-16 surrogate pair"
    else .ofCode n rest
  | _ => .cutOff "incomplete UTF-16 character"

/-! ### Batches -/

inductive Encoding where
  | utf8
  | utf16 (lowFirst : Bool)
  deriving DecidableEq, Repr

def Encoding.decode : Encoding → Bytes → Decoded
  | utf8 => decodeUtf8
  | utf16 lowFirst => decodeUtf16 lowFirst

/-- The number of bytes in a batch. -/
def batchSize : Nat := 512

/-- What is left of a text. -/
structure Source where
  encoding : Encoding := .utf8
  bytes : Bytes
  /-- The number of bytes in the next batch. -/
  room : Nat := batchSize
  deriving DecidableEq, Repr

/-- Decodes bytes onto the characters before them, which stand in reverse. -/
def decodeBatch (e : Encoding) :
    (fuel : Nat) → (done : List Char) → Bytes → List Char × Bytes × Option Text
  | 0, done, bytes => (done.reverse, bytes, none)
  | _, done, [] => (done.reverse, [], none)
  | fuel + 1, done, bytes =>
    match e.decode bytes with
    | .char c rest => decodeBatch e fuel (c :: done) rest
    | .cutOff problem => (done.reverse, bytes, if done.isEmpty then some problem else none)
    | .wrong problem => (done.reverse, bytes, some problem)

namespace Source

/-- A text from its start. An empty one is an empty line. -/
def ofBytes : Bytes → Source
  | 0xFF :: 0xFE :: rest => { encoding := .utf16 true, bytes := rest, room := batchSize - 2 }
  | 0xFE :: 0xFF :: rest => { encoding := .utf16 false, bytes := rest, room := batchSize - 2 }
  | 0xEF :: 0xBB :: 0xBF :: rest => { bytes := rest, room := batchSize - 3 }
  | [] => { bytes := [10] }
  | bytes => { bytes }

/-- The characters of the next batch, what is left behind it, and what is wrong with it. -/
def batch (s : Source) : List Char × Source × Option Text :=
  let (cs, rest, problem) := decodeBatch s.encoding s.room [] (s.bytes.take s.room)
  (cs, { s with bytes := rest ++ s.bytes.drop s.room, room := batchSize }, problem)

end Source

end Yaml

end CallerTree
