/-!
# Text that may hold undecodable bytes

Names, lines, paths and messages come from files, from the output of external tools and from
percent-decoded addresses, so a text can contain bytes that are not part of any character. A
`Text` is a list of glyphs; a glyph is a character or one such stray byte.

## Contract

Everything that only asks what a glyph looks like (patterns, character classes, the text of an
answer) goes through `Glyph.toChar`, which shows a stray byte as U+FFFD. Only quoting and byte
order look at the byte itself.

## Implementation notes

Literals are written as `String`s and coerced; the coercion is `Text.ofString`, which yields
characters only.
-/

namespace CallerTree

/-- The parts of a list between its separators; there is one more of them than there are
separators. -/
def pieces {α : Type} (isSeparator : α → Bool) (l : List α) : List (List α) :=
  l.foldr (fun a parts =>
    if isSeparator a then [] :: parts
    else match parts with
      | [] => [[a]]
      | part :: rest => (a :: part) :: rest) [[]]

/-- One unit of a text: a character, or a byte that belongs to none. -/
inductive Glyph where
  | char (c : Char)
  | stray (b : UInt8)
  deriving DecidableEq, Repr, Inhabited

namespace Glyph

/-- What a reader sees: a stray byte shows as the replacement character. -/
def toChar : Glyph → Char
  | char c => c
  | stray _ => '\ufffd'

def isStray : Glyph → Bool
  | char _ => false
  | stray _ => true

instance : Coe Char Glyph := ⟨char⟩

@[simp] theorem toChar_char (c : Char) : (char c).toChar = c := rfl

end Glyph

abbrev Text := List Glyph

namespace Text

def ofChars (cs : List Char) : Text := cs.map Glyph.char

def ofString (s : String) : Text := ofChars s.toList

instance : Coe String Text := ⟨ofString⟩

/-- The text as it is shown, stray bytes replaced. -/
def shown (t : Text) : String := String.ofList (t.map Glyph.toChar)

/-! ### Cutting a text at a separator -/

/-- The pieces between the separators. -/
def split (t : Text) (sep : Glyph) : List Text := pieces (· = sep) t

/-- The text before the first separator and the text after it. -/
def cut? (t : Text) (sep : Glyph) : Option (Text × Text) :=
  match t.dropWhile (· ≠ sep) with
  | [] => none
  | _ :: after => some (t.takeWhile (· ≠ sep), after)

/-- The text before the last separator and the text after it. -/
def cutLast? (t : Text) (sep : Glyph) : Option (Text × Text) :=
  (cut? t.reverse sep).map fun (after, before) => (before.reverse, after.reverse)

def join (sep : Text) : List Text → Text
  | [] => []
  | t :: rest => t ++ rest.flatMap (sep ++ ·)

/-- What is left of a text after the lead, if it starts so. -/
def strip? : (t lead : Text) → Option Text
  | t, [] => some t
  | [], _ :: _ => none
  | h :: t, g :: lead => if h = g then strip? t lead else none

def startsWith (t lead : Text) : Bool := (strip? t lead).isSome

/-- The text without the given tail, or the text itself when it does not end so. -/
def dropTail (t tail : Text) : Text :=
  match strip? t.reverse tail.reverse with
  | some r => r.reverse
  | none => t

/-- Whether `part` stands anywhere in the text. -/
def contains : (t part : Text) → Bool
  | [], part => part.isEmpty
  | g :: t, part => startsWith (g :: t) part || contains t part

/-- Every glyph equal to `old` written as `new` instead. -/
def substitute (t : Text) (old : Glyph) (new : Text) : Text :=
  t.flatMap fun g => if g = old then new else [g]

@[simp] theorem split_nil (sep : Glyph) : split [] sep = [[]] := rfl

@[simp] theorem strip?_nil (t : Text) : strip? t [] = some t := by
  cases t <;> rfl

end Text

end CallerTree
