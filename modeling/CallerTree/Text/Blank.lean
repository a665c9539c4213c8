import CallerTree.Text.Basic

/-!
# Blanks

Two different classes of blanks are in use. `Char.isBlank` is the Unicode property White_Space
and decides what trimming removes and what separates words. `Char.isGap` is the smaller class that
patterns skip: tab, line feed, form feed, carriage return and space.
-/

namespace CallerTree

namespace Text

/-- The Unicode property White_Space. -/
def isBlankChar (c : Char) : Bool :=
  let n := c.toNat
  (0x09 ≤ n && n ≤ 0x0D) || n == 0x20 || n == 0x85 || n == 0xA0 || n == 0x1680 ||
    (0x2000 ≤ n && n ≤ 0x200A) || n == 0x2028 || n == 0x2029 || n == 0x202F || n == 0x205F ||
    n == 0x3000

/-- The blanks that a pattern skips; the vertical tab is not one of them. -/
def isGapChar (c : Char) : Bool :=
  c == ' ' || c == '\t' || c == '\n' || c == '\x0c' || c == '\r'

def isBlank (g : Glyph) : Bool := isBlankChar g.toChar

def isGap (g : Glyph) : Bool := isGapChar g.toChar

theorem isBlankChar_of_isGapChar {c : Char} (h : isGapChar c) : isBlankChar c := by
  simp only [isGapChar, Bool.or_eq_true, beq_iff_eq] at h
  rcases h with (((h | h) | h) | h) | h <;> subst h <;> decide

/-- Drops the glyphs of a class from the end. -/
def dropEndWhile (p : Glyph → Bool) (t : Text) : Text := (t.reverse.dropWhile p).reverse

/-- Without the blanks at both ends. -/
def trim (t : Text) : Text := dropEndWhile isBlank (t.dropWhile isBlank)

/-- The maximal runs of non-blanks. -/
def words (t : Text) : List Text := (pieces isBlank t).filter fun w => !w.isEmpty

def isAllBlank (t : Text) : Bool := t.all isBlank

end Text

end CallerTree
