import CallerTree.Text.Basic

/-!
# Decimal numerals and 64-bit numbers

Line numbers, limits and statuses are signed 64-bit numbers. They are kept as integers; `wrap64`
brings the result of an operation that may leave the range back into it.
-/

namespace CallerTree

/-- The signed 64-bit number congruent to `n`. -/
def wrap64 (n : Int) : Int := n.bmod 0x10000000000000000

def maxInt64 : Int := 0x7fffffffffffffff

def minInt64 : Int := -0x8000000000000000

theorem wrap64_of_mem {n : Int} (lo : minInt64 ≤ n) (hi : n ≤ maxInt64) : wrap64 n = n := by
  simp only [wrap64, minInt64, maxInt64] at *
  exact Int.bmod_eq_of_le (by omega) (by omega)

namespace Text

def ofNat (n : Nat) : Text := ofChars (Nat.toDigits 10 n)

def ofInt : Int → Text
  | .ofNat n => ofNat n
  | .negSucc n => .char '-' :: ofNat (n + 1)

/-- The value of an ASCII decimal digit. -/
def digit? : Glyph → Option Nat
  | .char c => if c.isDigit then some (c.toNat - '0'.toNat) else none
  | .stray _ => none

/-- The value of a non-empty run of ASCII digits. -/
def readNat? : Text → Option Nat
  | [] => none
  | t => t.foldlM (fun n g => (digit? g).map (n * 10 + ·)) 0

/-- Keeps a number that fits into 64 signed bits. -/
def fit64? (n : Int) : Option Int := if minInt64 ≤ n ∧ n ≤ maxInt64 then some n else none

/-- A decimal number with an optional sign that fits into 64 signed bits. -/
def readInt? : Text → Option Int
  | .char '-' :: t => (readNat? t).bind fun n => fit64? (-(n : Int))
  | .char '+' :: t => (readNat? t).bind fun n => fit64? n
  | t => (readNat? t).bind fun n => fit64? n

/-- Hexadecimal digits in lower case, at least `width` of them. -/
def hex (width n : Nat) : Text :=
  let digits := Nat.toDigits 16 n
  ofChars (List.replicate (width - digits.length) '0' ++ digits)

end Text

end CallerTree
