import CallerTree.Text.Numeral

/-!
# Integer literals

A literal has an optional sign and is decimal, or announces another base: `0x`, `0o` and `0b`, or a
leading zero for base 8. Single underscores may stand between its digits.
-/

namespace CallerTree

namespace Text

/-- Why a text is no literal of a signed 64-bit number. -/
inductive LiteralError where
  | malformed
  | outOfRange
  deriving DecidableEq, Repr

namespace Literal

def digitValue? : Glyph → Option Nat
  | .char c =>
    if c.isDigit then some (c.toNat - 48)
    else if 'a' ≤ c ∧ c ≤ 'z' then some (c.toNat - 87)
    else if 'A' ≤ c ∧ c ≤ 'Z' then some (c.toNat - 55)
    else none
  | .stray _ => none

/-- The letter behind the zero that announces a base. -/
def baseOf? : Glyph → Option Nat
  | .char 'x' | .char 'X' => some 16
  | .char 'o' | .char 'O' => some 8
  | .char 'b' | .char 'B' => some 2
  | _ => none

/-- The base and the digits of a literal without its sign. -/
def split (t : Text) : Nat × Text :=
  match t with
  | .char '0' :: b :: d :: rest =>
    match baseOf? b with
    | some base => (base, d :: rest)
    | none => (8, b :: d :: rest)
  | .char '0' :: rest => (8, rest)
  | t => (10, t)

/-- The value of digits. A value that leaves the unsigned range is reported before what follows is
looked at. -/
def value (base : Nat) : (n : Nat) → Text → Except LiteralError Nat
  | n, [] => .ok n
  | n, g :: rest =>
    if g = .char '_' then value base n rest
    else match digitValue? g with
      | none => .error .malformed
      | some d =>
        if base ≤ d then .error .malformed
        else if 2 ^ 64 ≤ n * base + d then .error .outOfRange
        else value base (n * base + d) rest

/-- Every underscore stands between two digits, or between the letter of the base and a digit. -/
def underscoresFit (isHex : Bool) : (afterDigit : Bool) → Text → Bool
  | _, [] => true
  | afterDigit, g :: rest =>
    let isDigit := fun g => (digitValue? g).any fun d => d < if isHex then 16 else 10
    if g = .char '_' then
      afterDigit && rest.head?.any isDigit && underscoresFit isHex false rest
    else underscoresFit isHex (isDigit g) rest

/-- The same for a whole literal without its sign. -/
def isSeparatedWell (t : Text) : Bool :=
  match t with
  | .char '0' :: b :: rest =>
    match baseOf? b with
    | some base => underscoresFit (base = 16) true rest
    | none => underscoresFit false false t
  | t => underscoresFit false false t

/-- A literal without its sign. -/
def unsigned (t : Text) : Except LiteralError Nat := do
  if t.isEmpty then throw .malformed
  let (base, digits) := split t
  let n ← value base 0 digits
  if t.any (· = .char '_') && !isSeparatedWell t then throw .malformed
  return n

end Literal

open Literal in
/-- Reads a literal of a signed 64-bit number. -/
def readLiteral (t : Text) : Except LiteralError Int := do
  let n : Int ← match t with
    | .char '-' :: rest => do pure (-((← unsigned rest : Nat) : Int))
    | .char '+' :: rest => do pure ((← unsigned rest : Nat) : Int)
    | t => do pure ((← unsigned t : Nat) : Int)
  match fit64? n with
  | some n => return n
  | none => throw .outOfRange

end Text

end CallerTree
