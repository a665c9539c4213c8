import CallerTree.Text.Numeral

/-!
# JSON texts

Answers are written as JSON, either on one line or indented. Field order is kept.
-/

namespace CallerTree

inductive Json where
  | null
  | bool (b : Bool)
  | num (n : Int)
  | str (t : Text)
  | arr (items : List Json)
  | obj (fields : List (Text × Json))
  deriving Repr

namespace Json

/-! ### Strings -/

/-- How a character is written inside a string. With `markup` the characters that matter in HTML are
escaped too. -/
def escapedChar (markup : Bool) (c : Char) : Text :=
  if c = '"' then "\\\""
  else if c = '\\' then "\\\\"
  else if c = '\n' then "\\n"
  else if c = '\r' then "\\r"
  else if c = '\t' then "\\t"
  else if c = '\x08' then "\\b"
  else if c = '\x0c' then "\\f"
  else if c.toNat < 0x20 ∨ c = '\u2028' ∨ c = '\u2029' ∨ markup ∧ (c = '<' ∨ c = '>' ∨ c = '&') then
    "\\u" ++ Text.hex 4 c.toNat
  else [.char c]

def quotedText (markup : Bool) (t : Text) : Text :=
  "\"" ++ t.flatMap (fun g => escapedChar markup g.toChar) ++ "\""

/-! ### One line -/

mutual

def compact : Json → Text
  | null => "null"
  | bool b => if b then "true" else "false"
  | num n => Text.ofInt n
  | str t => quotedText true t
  | arr items => "[" ++ Text.join "," (compactItems items) ++ "]"
  | obj fields => "\x7b" ++ Text.join "," (compactFields fields) ++ "\x7d"

def compactItems : List Json → List Text
  | [] => []
  | j :: rest => j.compact :: compactItems rest

def compactFields : List (Text × Json) → List Text
  | [] => []
  | (k, j) :: rest => (quotedText true k ++ ":" ++ j.compact) :: compactFields rest

end

/-! ### Indented by two blanks a level -/

/-- The items of a container, each on a line of its own. -/
def bracketed (opening closing : Text) (level : Nat) (items : List Text) : Text :=
  if items.isEmpty then opening ++ closing
  else
    let newline := fun n => Text.ofChars ('\n' :: List.replicate (2 * n) ' ')
    opening ++ newline (level + 1) ++ Text.join ("," ++ newline (level + 1)) items ++
      newline level ++
      closing

mutual

def indented (level : Nat) : Json → Text
  | null => "null"
  | bool b => if b then "true" else "false"
  | num n => Text.ofInt n
  | str t => quotedText true t
  | arr items => bracketed "[" "]" level (indentedItems (level + 1) items)
  | obj fields => bracketed "\x7b" "\x7d" level (indentedFields (level + 1) fields)

def indentedItems (level : Nat) : List Json → List Text
  | [] => []
  | j :: rest => j.indented level :: indentedItems level rest

def indentedFields (level : Nat) : List (Text × Json) → List Text
  | [] => []
  | (k, j) :: rest => (quotedText true k ++ ": " ++ j.indented level) :: indentedFields level rest

end

/-! ### Nesting

An indented text is only written of values that a reader with a bounded stack could read.
-/

/-- The containers that may stand around each other. -/
def nestingLimit : Nat := 10000

mutual

/-- The bracket of the first container that stands inside `room` others or more, if any. -/
def overflow? (room : Nat) : Json → Option Char
  | arr items => if room = 0 then some '[' else overflowItems? (room - 1) items
  | obj fields => if room = 0 then some '\x7b' else overflowFields? (room - 1) fields
  | _ => none

def overflowItems? (room : Nat) : List Json → Option Char
  | [] => none
  | j :: rest => (j.overflow? room).or (overflowItems? room rest)

def overflowFields? (room : Nat) : List (Text × Json) → Option Char
  | [] => none
  | (_, j) :: rest => (j.overflow? room).or (overflowFields? room rest)

end

/-! ### Building values -/

def strs (ts : List Text) : Json := arr (ts.map str)

/-- An object with fixed fields and further ones that may be missing. -/
def objWith (fields optional : List (Text × Json)) : Json := obj (fields ++ optional)

end Json

end CallerTree
