import CallerTree.Failure
import CallerTree.Line.Shape
import CallerTree.Text.Quoted

/-!
# Function names

A function is asked for by its plain or scoped name. The name is put into search patterns and on
command lines, so nothing but an identifier is let through.
-/

namespace CallerTree

namespace FunctionName

open Line in
/-- Scopes, an optional tilde and an identifier. -/
def isValid (name : Text) : Bool := (Pattern.seq scope anyName).accepts name

def validate (name : Text) : Except Failure Unit :=
  if isValid name then .ok ()
  else .error (.because .invalidRequest ("invalid function name " ++ name.quoted))

/-- The characters with a meaning in search patterns. -/
def patternMarks : List Char :=
  ['\\', '.', '+', '*', '?', '(', ')', '|', '[', ']', '\x7b', '\x7d', '^', '$']

/-- The name as a search pattern that matches nothing else. -/
def escaped (name : Text) : Text :=
  name.flatMap fun g => if patternMarks.contains g.toChar then [.char '\\', g] else [g]

/-- The search pattern for the name, blanks and an opening parenthesis. -/
def callPattern (name : Text) : Text := escaped name ++ "\\s*\\("

/-- Refuses a search pattern from the first byte on that belongs to no character. -/
def checkPattern (pattern : Text) : Except Failure Unit :=
  match pattern.dropWhile fun g => !g.isStray with
  | [] => .ok ()
  | rest =>
    .error (.because .invalidRequest ("error parsing regexp: invalid UTF-8: `" ++ rest ++ "`"))

end FunctionName

end CallerTree
