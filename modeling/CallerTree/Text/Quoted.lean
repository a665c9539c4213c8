import CallerTree.Text.Numeral
import CallerTree.Text.Printable

/-!
# Quoted text

Messages show a piece of input between double quotes, so that blanks and unprintable characters in
it stay visible. A stray byte and an ASCII control character are written as two hexadecimal digits,
any other unprintable character as four or eight.
-/

namespace CallerTree

namespace Text

/-- The letter that stands for a control character after a backslash. -/
def controlLetter? (c : Char) : Option Char :=
  match c.toNat with
  | 0x07 => some 'a'
  | 0x08 => some 'b'
  | 0x0C => some 'f'
  | 0x0A => some 'n'
  | 0x0D => some 'r'
  | 0x09 => some 't'
  | 0x0B => some 'v'
  | _ => none

def quotedChar (c : Char) : Text :=
  if c = '"' ∨ c = '\\' then ['\\', c]
  else if isPrintable c then [.char c]
  else match controlLetter? c with
    | some l => ['\\', l]
    | none =>
      let n := c.toNat
      if n < 0x20 ∨ n = 0x7F then "\\x" ++ hex 2 n
      else if n < 0x10000 then "\\u" ++ hex 4 n
      else "\\U" ++ hex 8 n

def quotedGlyph : Glyph → Text
  | .char c => quotedChar c
  | .stray b => "\\x" ++ hex 2 b.toNat

def quoted (t : Text) : Text := "\"" ++ t.flatMap quotedGlyph ++ "\""

end Text

end CallerTree
