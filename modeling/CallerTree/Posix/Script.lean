import CallerTree.Text.Numeral

/-!
# Shell scripts

The commands of a shell script. A word is made of parts; what a part stands for is known only when
the word is used.
-/

namespace CallerTree

namespace Posix

def isNameStart (g : Glyph) : Bool :=
  match g with
  | .char c => c.isAlpha || c = '_'
  | .stray _ => false

/-- Glyphs of which names of variables are made. -/
def isNameGlyph (g : Glyph) : Bool := isNameStart g || (Text.digit? g).isSome

/-- Where a redirection leads. -/
inductive Direction where
  | reading
  | writing
  | appending
  /-- From a text in the script. -/
  | document
  /-- To the place of another descriptor. -/
  | duplicating
  deriving DecidableEq, Repr

mutual

inductive Part where
  | text (isQuoted : Bool) (t : Text)
  /-- The value of a variable. -/
  | value (isQuoted : Bool) (name : Text) (use : Use)
  /-- What a script prints. -/
  | output (isQuoted : Bool) (script : List Statement)
  /-- The value of an arithmetic expression. -/
  | sum (isQuoted : Bool) (expression : List Part)

/-- How the value of a variable is used. -/
inductive Use where
  | plain
  | size
  /-- A word instead of a missing value. -/
  | instead (orEmpty assigns : Bool) (word : List Part)
  /-- A word if there is a value. -/
  | besides (orEmpty : Bool) (word : List Part)
  /-- A missing value is an error. -/
  | required (orEmpty : Bool) (word : List Part)
  /-- The value without a part at one of its ends. -/
  | trimmed (atEnd longest : Bool) (pattern : List Part)

inductive Redirection where
  | mk (descriptor : Nat) (direction : Direction) (target : List Part)

inductive Statement where
  | simple (line : Nat) (assignments : List (Text × List Part)) (words : List (List Part))
    (redirections : List Redirection)
  | pipe (stages : List Statement)
  | negated (c : Statement)
  /-- The second command runs if the first succeeds, or if it fails. -/
  | joined (isAnd : Bool) (first second : Statement)
  | sequence (cs : List Statement)
  | background (c : Statement)
  | subshell (body : List Statement)
  | redirected (c : Statement) (redirections : List Redirection)
  | branch (condition yes no : List Statement)
  | loop (isUntil : Bool) (condition body : List Statement)
  /-- A loop over words, or over the arguments of the script. -/
  | each (name : Text) (words : Option (List (List Part))) (body : List Statement)
  | choice (subject : List Part) (cases : List (List (List Part) × List Statement))
  | define (name : Text) (body : Statement)

end

abbrev Word := List Part

/-- Why a script cannot be read. -/
inductive Fault where
  /-- A token in the wrong place, and what should have been there. -/
  | unexpected (token : Text) (expected : Option Text)
  | unterminated
  | badSubstitution
  deriving DecidableEq, Repr

def Fault.text : Fault → Text
  | unexpected token expected =>
    "Syntax error: " ++ token ++ " unexpected" ++
      match expected with
      | some t => (" (expecting \"" ++ t ++ "\")" : Text)
      | none => []
  | unterminated => "Syntax error: Unterminated quoted string"
  | badSubstitution => "Bad substitution"

end Posix

end CallerTree
