import CallerTree.Posix.Script
import CallerTree.Text.Blank
import CallerTree.Text.Literal

/-!
# Arithmetic expressions

Integer expressions with the operators of C, on 64 bits. A name stands for the value of a variable,
a missing one counts as zero, and a variable can be assigned to.
-/

namespace CallerTree

namespace Posix

namespace Arithmetic

/-- Why an expression has no value. -/
inductive Problem where
  | missingOperand
  | missing (t : Text)
  | divisionByZero
  /-- Something stands behind the expression. -/
  | leftover
  /-- The value of a variable is no number. -/
  | badNumber (t : Text)
  deriving DecidableEq, Repr

/-- The message about an expression. -/
def Problem.text (whole : Text) : Problem → Text
  | missingOperand => "arithmetic expression: expecting primary: \"" ++ whole ++ "\""
  | missing t => "arithmetic expression: expecting '" ++ t ++ "': \"" ++ whole ++ "\""
  | divisionByZero => "arithmetic expression: division by zero: \"" ++ whole ++ "\""
  | leftover => "arithmetic expression: expecting EOF: \"" ++ whole ++ "\""
  | badNumber t => "Illegal number: " ++ t

/-- What is left of an expression, and the variables as changed so far. -/
structure State where
  rest : Text
  bindings : List (Text × Text)

abbrev Eval := EStateM Problem State

def skipBlanks : Eval Unit := modify fun s => { s with rest := s.rest.dropWhile Text.isBlank }

/-- Goes past a text, if it is next. -/
def accept (t : Text) : Eval Bool := do
  match Text.strip? (← get).rest t with
  | some rest =>
    modify fun s => { s with rest }
    return true
  | none => return false

def truth (b : Bool) : Int := if b then 1 else 0

/-- The binary operators, those that bind tightest last. An operator comes before its beginnings. -/
def operators : List (Text × Nat) := [
  ("||", 1), ("&&", 2), ("==", 6), ("!=", 6), ("<=", 7), (">=", 7), ("<", 7), (">", 7), ("+", 9),
  ("-", 9), ("*", 10), ("/", 10), ("%", 10)]

/-- The result of a binary operator. -/
def combine (operator : Text) (a b : Int) : Except Problem Int :=
  if operator = "||" then .ok (truth (a ≠ 0 || b ≠ 0))
  else if operator = "&&" then .ok (truth (a ≠ 0 && b ≠ 0))
  else if operator = "==" then .ok (truth (a = b))
  else if operator = "!=" then .ok (truth (a ≠ b))
  else if operator = "<=" then .ok (truth (a ≤ b))
  else if operator = ">=" then .ok (truth (b ≤ a))
  else if operator = "<" then .ok (truth (a < b))
  else if operator = ">" then .ok (truth (b < a))
  else if operator = "+" then .ok (wrap64 (a + b))
  else if operator = "-" then .ok (wrap64 (a - b))
  else if operator = "*" then .ok (wrap64 (a * b))
  else if b = 0 then .error .divisionByZero
  else if operator = "/" then .ok (wrap64 (a.tdiv b))
  else .ok (a.tmod b)

/-- The value of a variable as a number. -/
def variableValue (name : Text) : Eval Int := do
  match ((← get).bindings.lookup name).map Text.trim with
  | none | some [] => return 0
  | some t =>
    match Text.readLiteral t with
    | .ok n => return n
    | .error _ => throw (.badNumber t)

def assign (name : Text) (n : Int) : Eval Int := do
  modify fun s => { s with
    bindings := (name, Text.ofInt n) :: s.bindings.filter fun v => v.1 ≠ name }
  return n

/-- The operator that is next, if it binds at least as tight as asked for. -/
def operator? (least : Nat) : Eval (Option (Text × Nat)) := do
  skipBlanks
  let rest := (← get).rest
  match operators.find? fun o => Text.startsWith rest o.1 with
  | some (o, rank) =>
    if rank < least then return none
    modify fun s => { s with rest := s.rest.drop o.length }
    return some (o, rank)
  | none => return none

/-- A number, a variable, or an expression in parentheses. -/
def primary (inner : Nat → Eval Int) : Eval Int := do
  skipBlanks
  match (← get).rest with
  | [] => throw .missingOperand
  | .char '(' :: rest =>
    modify fun s => { s with rest }
    let n ← inner 0
    skipBlanks
    unless ← accept ")" do throw (.missing ")")
    return n
  | .char '-' :: rest =>
    modify fun s => { s with rest }
    return wrap64 (-(← inner 11))
  | .char '+' :: rest =>
    modify fun s => { s with rest }
    inner 11
  | .char '!' :: rest =>
    modify fun s => { s with rest }
    return truth ((← inner 11) = 0)
  | .char '~' :: rest =>
    modify fun s => { s with rest }
    return -(← inner 11) - 1
  | g :: rest =>
    let word := (g :: rest).takeWhile isNameGlyph
    modify fun s => { s with rest := s.rest.drop word.length }
    if word.isEmpty then throw .missingOperand
    else if isNameStart g then
      skipBlanks
      let rest := (← get).rest
      if rest.head? = some (.char '=') && rest.tail.head? ≠ some (.char '=') then
        modify fun s => { s with rest := s.rest.tail }
        assign word (← inner 0)
      else match operators.find? fun o => Text.startsWith rest (o.1 ++ "=") with
        | some (o, rank) =>
          if rank = 6 ∨ rank = 7 ∨ rank ≤ 2 then variableValue word
          else
            modify fun s => { s with rest := s.rest.drop (o.length + 1) }
            let old ← variableValue word
            match combine o old (← inner 0) with
            | .ok n => assign word n
            | .error e => throw e
        | none => variableValue word
    else match Text.readLiteral word with
      | .ok n => return n
      | .error _ => throw .leftover

/-- Operators behind an operand, as long as they bind tight enough. -/
def climb (inner : Nat → Eval Int) (least : Nat) : (fuel : Nat) → Int → Eval Int
  | 0, a => return a
  | fuel + 1, a => do
    match ← operator? (max least 1) with
    | some (o, rank) =>
      match combine o a (← inner (rank + 1)) with
      | .ok n => climb inner least fuel n
      | .error e => throw e
    | none =>
      if least = 0 then
        skipBlanks
        if ← accept "?" then
          let yes ← inner 0
          skipBlanks
          unless ← accept ":" do throw (.missing ":")
          let no ← inner 0
          return if a ≠ 0 then yes else no
      return a

/-- An expression whose operators bind at least as tight as asked for. -/
def expression : (fuel : Nat) → (least : Nat) → Eval Int
  | 0, _ => throw .missingOperand
  | fuel + 1, least => do
    let a ← primary (expression fuel)
    if 11 ≤ least then return a
    climb (expression fuel) least fuel a

end Arithmetic

open Arithmetic in
/-- The value of an expression, and the variables after its assignments. -/
def evaluate (bindings : List (Text × Text)) (t : Text) :
    Except Text (Int × List (Text × Text)) :=
  let whole : Eval Int := do
    skipBlanks
    if (← get).rest.isEmpty then return 0
    let n ← expression (t.length + 2) 0
    skipBlanks
    unless (← get).rest.isEmpty do throw .leftover
    return n
  match whole { rest := t, bindings } with
  | .ok n s => .ok (n, s.bindings)
  | .error e _ => .error (e.text t)

end Posix

end CallerTree
