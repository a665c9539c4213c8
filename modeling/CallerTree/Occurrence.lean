import CallerTree.Text.Blank
import CallerTree.Text.Numeral

/-!
# Occurrences of a name

An occurrence is a line of a file that mentions a function. External tools print occurrences one
per line, either as `file:line:code` or as `file scope line code`.
-/

namespace CallerTree

structure Occurrence where
  /-- Relative to the root of the source tree when it lies below it. -/
  file : Text
  /-- Counted from 1. -/
  line : Int
  code : Text
  /-- The scope an index reports, or nothing. -/
  scope : Text := []
  deriving DecidableEq, Repr

namespace Occurrence

def readLineNumber? (t : Text) : Option Int :=
  (t.readInt?).bind fun n => if 1 ≤ n then some n else none

/-- Reads `file:line:code`; the code may hold further colons. -/
def ofGrepLine? (t : Text) : Option Occurrence := do
  let (file, t) ← t.cut? ':'
  let (number, code) ← t.cut? ':'
  return { file, line := ← readLineNumber? number, code }

/-- Reads `file scope line code`; the code may hold further blanks. -/
def ofIndexLine? (t : Text) : Option Occurrence := do
  let (file, t) ← t.cut? ' '
  let (scope, t) ← t.cut? ' '
  let (number, code) ← t.cut? ' '
  return { file, line := ← readLineNumber? number, code, scope }

/-- The lines of tool output that are not blank, without carriage returns at their ends. -/
def outputLines (output : Text) : List Text :=
  ((output.split '\n').map (Text.dropEndWhile (· = .char '\r'))).filter fun l => !l.isAllBlank

end Occurrence

end CallerTree
