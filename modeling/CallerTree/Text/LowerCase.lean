import CallerTree.Text.Basic

/-!
# Lower case

Names are compared in lower case. The lower case of a character is a single character, so a text
keeps its length in characters, though not its length in bytes.

## Implementation notes

Capital letters stand in runs: either all letters of an interval are capitals, or every second one
is. Within a run the distance to the small letter is the same.
-/

namespace CallerTree

namespace Text

/-- The capital letters above the ASCII range in ascending order: how far a run is from the end of
the one before, the letters behind its first one, the distance between them, and the distance to the
small letters. -/
def capitalRuns : List (Nat × Nat × Nat × Int) := [
  (192, 22, 1, 32), (2, 6, 1, 32), (34, 23, 2, 1), (2, 0, 1, -199), (2, 2, 2, 1), (3, 7, 2, 1),
  (3, 22, 2, 1), (2, 0, 1, -121), (1, 2, 2, 1), (4, 0, 1, 210), (1, 1, 2, 1), (2, 0, 1, 206),
  (1, 0, 1, 1), (2, 1, 1, 205), (1, 0, 1, 1), (3, 0, 1, 79), (1, 0, 1, 202), (1, 0, 1, 203),
  (1, 0, 1, 1), (2, 0, 1, 205), (1, 0, 1, 207), (2, 0, 1, 211), (1, 0, 1, 209), (1, 0, 1, 1),
  (4, 0, 1, 211), (1, 0, 1, 213), (2, 0, 1, 214), (1, 2, 2, 1), (2, 0, 1, 218), (1, 0, 1, 1),
  (2, 0, 1, 218), (3, 0, 1, 1), (2, 0, 1, 218), (1, 0, 1, 1), (2, 1, 1, 217), (1, 1, 2, 1),
  (2, 0, 1, 219), (1, 0, 1, 1), (4, 0, 1, 1), (8, 0, 1, 2), (1, 0, 1, 1), (2, 0, 1, 2),
  (1, 0, 1, 1), (2, 0, 1, 2), (1, 8, 2, 1), (3, 8, 2, 1), (3, 0, 1, 2), (1, 1, 2, 1),
  (2, 0, 1, -97), (1, 0, 1, -56), (1, 19, 2, 1), (2, 0, 1, -130), (2, 8, 2, 1), (8, 0, 1, 10795),
  (1, 0, 1, 1), (2, 0, 1, -163), (1, 0, 1, 10792), (3, 0, 1, 1), (2, 0, 1, -195), (1, 0, 1, 69),
  (1, 0, 1, 71), (1, 4, 2, 1), (290, 1, 2, 1), (4, 0, 1, 1), (9, 0, 1, 116), (7, 0, 1, 38),
  (2, 2, 1, 37), (2, 0, 1, 64), (2, 1, 1, 63), (2, 16, 1, 32), (2, 8, 1, 32), (36, 0, 1, 8),
  (9, 11, 2, 1), (6, 0, 1, -60), (3, 0, 1, 1), (2, 0, 1, -7), (1, 0, 1, 1), (3, 2, 1, -130),
  (1, 15, 1, 80), (1, 31, 1, 32), (49, 16, 2, 1), (10, 26, 2, 1), (2, 0, 1, 15), (1, 6, 2, 1),
  (3, 47, 2, 1), (3, 37, 1, 48), (2890, 37, 1, 7264), (2, 0, 1, 7264), (6, 0, 1, 7264),
  (723, 79, 1, 38864), (1, 5, 1, 8), (2196, 0, 1, 1), (7, 42, 1, -3008), (3, 2, 1, -3008),
  (321, 74, 2, 1), (10, 0, 1, -7615), (2, 47, 2, 1), (10, 7, 1, -8), (9, 5, 1, -8), (11, 7, 1, -8),
  (9, 7, 1, -8), (9, 5, 1, -8), (12, 3, 2, -8), (9, 7, 1, -8), (25, 7, 1, -8), (9, 7, 1, -8),
  (9, 7, 1, -8), (9, 1, 1, -8), (1, 1, 1, -74), (1, 0, 1, -9), (12, 3, 1, -86), (1, 0, 1, -9),
  (12, 1, 1, -8), (1, 1, 1, -100), (13, 1, 1, -8), (1, 1, 1, -112), (1, 0, 1, -7), (12, 1, 1, -128),
  (1, 1, 1, -126), (1, 0, 1, -9), (298, 0, 1, -7517), (4, 0, 1, -8383), (1, 0, 1, -8262),
  (7, 0, 1, 28), (46, 15, 1, 16), (20, 0, 1, 1), (819, 25, 1, 26), (1841, 47, 1, 48), (49, 0, 1, 1),
  (2, 0, 1, -10743), (1, 0, 1, -3814), (1, 0, 1, -10727), (3, 2, 2, 1), (2, 0, 1, -10780),
  (1, 0, 1, -10749), (1, 0, 1, -10783), (1, 0, 1, -10782), (2, 0, 1, 1), (3, 0, 1, 1),
  (9, 1, 1, -10815), (1, 49, 2, 1), (9, 1, 2, 1), (5, 0, 1, 1), (31054, 22, 2, 1), (20, 13, 2, 1),
  (136, 6, 2, 1), (4, 30, 2, 1), (11, 1, 2, 1), (2, 0, 1, -35332), (1, 4, 2, 1), (5, 0, 1, 1),
  (2, 0, 1, -42280), (3, 1, 2, 1), (4, 9, 2, 1), (2, 0, 1, -42308), (1, 0, 1, -42319),
  (1, 0, 1, -42315), (1, 0, 1, -42305), (1, 0, 1, -42308), (2, 0, 1, -42258), (1, 0, 1, -42282),
  (1, 0, 1, -42261), (1, 0, 1, 928), (1, 7, 2, 1), (2, 0, 1, -48), (1, 0, 1, -42307),
  (1, 0, 1, -35384), (1, 1, 2, 1), (2, 0, 1, -42343), (1, 7, 2, 1), (2, 0, 1, -42561),
  (25, 0, 1, 1), (22316, 25, 1, 32), (1222, 39, 1, 40), (137, 35, 1, 40), (157, 10, 1, 39),
  (2, 14, 1, 39), (2, 6, 1, 39), (2, 1, 1, 39), (1771, 50, 1, 64), (158, 21, 1, 32),
  (2875, 31, 1, 32), (21889, 31, 1, 32), (65, 24, 1, 27), (31304, 33, 1, 34)]

/-- The small letter of `n` by the runs behind a place. -/
def smallAfter? (n : Nat) : (place : Nat) → List (Nat × Nat × Nat × Int) → Option Nat
  | _, [] => none
  | place, (gap, more, stride, shift) :: rest =>
    let first := place + gap
    let last := first + more * stride
    if n < first then none
    else if last < n then smallAfter? n last rest
    else if (n - first) % stride = 0 then some (n + shift).toNat
    else none

def lowerChar (c : Char) : Char :=
  if c.toNat < 0x80 then c.toLower
  else match smallAfter? c.toNat 0 capitalRuns with
    | some n => Char.ofNat n
    | none => c

/-- A stray byte has no lower case and becomes the replacement character. -/
def lower (t : Text) : Text := t.map fun g => .char (lowerChar g.toChar)

end Text

end CallerTree
