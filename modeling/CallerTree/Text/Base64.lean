import CallerTree.Text.Utf8

/-!
# Base 64

Three bytes are written as four digits; one or two bytes at the end are filled up with `=`. Line
breaks between the digits are ignored.
-/

namespace CallerTree

namespace Base64

def digit? (c : Char) : Option Nat :=
  if 'A' ≤ c ∧ c ≤ 'Z' then some (c.toNat - 65)
  else if 'a' ≤ c ∧ c ≤ 'z' then some (c.toNat - 71)
  else if '0' ≤ c ∧ c ≤ '9' then some (c.toNat + 4)
  else if c = '+' then some 62
  else if c = '/' then some 63
  else none

/-- The bytes of full groups of four digits and of a last group that is filled up. -/
def groups? : List Char → Option Bytes
  | [] => some []
  | [a, b, '=', '='] => do
    let n := 64 * (← digit? a) + (← digit? b)
    return [UInt8.ofNat (n / 16)]
  | [a, b, c, '='] => do
    let n := 64 * (64 * (← digit? a) + (← digit? b)) + (← digit? c)
    return [UInt8.ofNat (n / 1024), UInt8.ofNat (n / 4)]
  | a :: b :: c :: d :: rest => do
    let n := 64 * (64 * (64 * (← digit? a) + (← digit? b)) + (← digit? c)) + (← digit? d)
    return UInt8.ofNat (n / 65536) :: UInt8.ofNat (n / 256) :: UInt8.ofNat n :: (← groups? rest)
  | _ => none

def decode? (cs : List Char) : Option Bytes :=
  groups? (cs.filter fun c => c ≠ '\n' && c ≠ '\r')

end Base64

end CallerTree
