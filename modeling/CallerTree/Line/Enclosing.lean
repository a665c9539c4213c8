import CallerTree.Line.Classify
import CallerTree.Text.Numeral

/-!
# The function around a line

The enclosing function of a line is found by scanning backwards for the nearest definition header.
A header ends in an opening brace, or it ends its line and the next line that is not blank starts
with one.
-/

namespace CallerTree

namespace Line

/-- Words that stand before a parenthesis without being a function. -/
def controlKeywords : List Text :=
  ["if", "for", "while", "switch", "catch", "return", "sizeof", "else", "do", "defined", "alignof",
    "decltype", "typeof", "__attribute__"]

/-- The caller of a line outside every function, or in a file that cannot be read. -/
def unknownCaller : Text := "unknown"

/-- The name in a definition header with the given ending. -/
def headerWithEnding? (ending : Ending) (line : Text) : Option Text := do
  let m ← (signature (.star typeToken) anyName ending).label? line
  let name := labelled .name m
  if controlKeywords.contains name || isUntypedCall m then none else some name

/-- Whether the first line that is not blank starts with an opening brace. -/
def opensBlock (lines : List Text) : Bool :=
  match lines.find? (fun l => !l.isAllBlank) with
  | some l => l.trim.startsWith "\x7b"
  | none => false

/-- The function whose definition header is `line`, given the lines after it. -/
def headerName? (line : Text) (following : List Text) : Option Text :=
  match headerWithEnding? (.mark '\x7b') line with
  | some name => some name
  | none =>
    match headerWithEnding? .eol line with
    | some name => if opensBlock following then some name else none
    | none => none

/-- The nearest header among the lines already passed, the last one first. -/
def nearestHeader? : (passed : List Text) → (following : List Text) → Option Text
  | [], _ => none
  | line :: passed, following =>
    match headerName? line following with
    | some name => some name
    | none => nearestHeader? passed (line :: following)

/-- The name of the function around the line with the 1-based number `number`. -/
def enclosingFunction (lines : List Text) (number : Int) : Text :=
  match wrap64 (number - 1) with
  | .ofNat i =>
    (nearestHeader? (lines.take (i + 1)).reverse (lines.drop (i + 1))).getD unknownCaller
  | .negSucc _ => unknownCaller

/-! ### Scope names reported by an index -/

/-- Letters, digits, underscores and dots, with at least one letter or digit. -/
def isScopeName (t : Text) : Bool :=
  let core := t.filter fun (g : Glyph) => g ≠ '_' && g ≠ '.'
  !core.isEmpty && core.all fun g => g.toChar.isAlphanum

/-- The caller of an indexed line: the reported scope when it is a name, else the function that the
line itself starts to define. -/
def callerFromScope (scope line : Text) : Text :=
  if scope ≠ "<global>" && isScopeName scope then scope
  else (headerWithEnding? (.mark '\x7b') line).getD unknownCaller

end Line

end CallerTree
