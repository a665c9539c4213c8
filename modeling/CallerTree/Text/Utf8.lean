import CallerTree.Text.Basic

/-!
# Bytes and text

Decoding takes the longest well-formed character at each position and otherwise leaves the byte
stray, so that no byte is ever lost: `Text.utf8` gives the bytes back.

## Contract

`decodeChar?` accepts exactly the shortest encodings of the scalar values. A refused first byte is
stray on its own and decoding resumes at the very next byte.

## Implementation notes

Inputs can be large, so decoding collects its result from the right end of an accumulator.
-/

namespace CallerTree

abbrev Bytes := List UInt8

namespace Text

/-- The six payload bits of a continuation byte. -/
def payload? (b : UInt8) : Option Nat :=
  if 0x80 ≤ b ∧ b ≤ 0xBF then some (b.toNat - 0x80) else none

/-- The scalar value `n`, refused outside `lo ≤ n ≤ hi` and among the surrogates. -/
def scalar? (lo hi n : Nat) : Option Char :=
  if lo ≤ n ∧ n ≤ hi ∧ ¬ (0xD800 ≤ n ∧ n ≤ 0xDFFF) then some (Char.ofNat n) else none

/-- The character that starts with byte `b` and goes on in `rest`, with the number of bytes of
`rest` it takes. -/
def decodeChar? (b : UInt8) (rest : Bytes) : Option (Char × Nat) :=
  if b < 0x80 then some (Char.ofNat b.toNat, 0)
  else if 0xC2 ≤ b ∧ b ≤ 0xDF then
    match rest with
    | b₁ :: _ => do
      let x₁ ← payload? b₁
      return (← scalar? 0x80 0x7FF ((b.toNat - 0xC0) * 64 + x₁), 1)
    | _ => none
  else if 0xE0 ≤ b ∧ b ≤ 0xEF then
    match rest with
    | b₁ :: b₂ :: _ => do
      let x₁ ← payload? b₁
      let x₂ ← payload? b₂
      return (← scalar? 0x800 0xFFFF (((b.toNat - 0xE0) * 64 + x₁) * 64 + x₂), 2)
    | _ => none
  else if 0xF0 ≤ b ∧ b ≤ 0xF4 then
    match rest with
    | b₁ :: b₂ :: b₃ :: _ => do
      let x₁ ← payload? b₁
      let x₂ ← payload? b₂
      let x₃ ← payload? b₃
      return (← scalar? 0x10000 0x10FFFF ((((b.toNat - 0xF0) * 64 + x₁) * 64 + x₂) * 64 + x₃), 3)
    | _ => none
  else none

/-- The glyphs of `bytes` in front of those already collected, which stand in reverse. -/
def decodeOnto (done : Text) : Bytes → Text
  | [] => done.reverse
  | b :: rest =>
    match decodeChar? b rest with
    | some (c, n) => decodeOnto (.char c :: done) (rest.drop n)
    | none => decodeOnto (.stray b :: done) rest
termination_by bytes => bytes.length
decreasing_by
  · simp only [List.length_drop, List.length_cons]; omega
  · simp

def ofUtf8 (bytes : Bytes) : Text := decodeOnto [] bytes

@[simp] theorem ofUtf8_nil : ofUtf8 [] = [] := by simp [ofUtf8, decodeOnto]

def encodeChar (c : Char) : Bytes :=
  let n := c.toNat
  if n < 0x80 then [n.toUInt8]
  else if n < 0x800 then [(0xC0 + n / 64).toUInt8, (0x80 + n % 64).toUInt8]
  else if n < 0x10000 then
    [(0xE0 + n / 4096).toUInt8, (0x80 + n / 64 % 64).toUInt8, (0x80 + n % 64).toUInt8]
  else
    [(0xF0 + n / 262144).toUInt8, (0x80 + n / 4096 % 64).toUInt8, (0x80 + n / 64 % 64).toUInt8,
      (0x80 + n % 64).toUInt8]

def glyphBytes : Glyph → Bytes
  | .char c => encodeChar c
  | .stray b => [b]

def utf8 (t : Text) : Bytes := t.flatMap glyphBytes

/-- The characters alone, stray bytes dropped. -/
def wellFormed (t : Text) : Text := t.filter fun g => !g.isStray

/-- The order of the encoded bytes. -/
def byteLE (s t : Text) : Bool := !(List.lex t.utf8 s.utf8 (· < ·))

end Text

end CallerTree
