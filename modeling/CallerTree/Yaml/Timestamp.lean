import CallerTree.Text.Numeral

/-!
# Timestamps

A plain scalar can be a date, or a date with a time of day. Only whether it is one matters here.
-/

namespace CallerTree

namespace Yaml

namespace Timestamp

/-- A number of one or two digits. -/
def short? : Text → Option (Nat × Text)
  | a :: b :: rest => do
    let x ← Text.digit? a
    match Text.digit? b with
    | some y => return (10 * x + y, rest)
    | none => return (x, b :: rest)
  | [a] => do return (← Text.digit? a, [])
  | [] => none

/-- A short number below a bound. -/
def below? (bound : Nat) (t : Text) : Option Text := do
  let (n, rest) ← short? t
  if n < bound then some rest else none

def daysIn (year month : Nat) : Nat :=
  if month = 2 then
    if year % 4 = 0 ∧ (year % 100 ≠ 0 ∨ year % 400 = 0) then 29 else 28
  else if [4, 6, 9, 11].contains month then 30
  else 31

/-- A year of four digits, a month and a day that exists. -/
def date? (t : Text) : Option Text := do
  let year ← Text.readNat? (t.take 4)
  if (t.take 4).length < 4 then none
  let rest ← Text.strip? (t.drop 4) "-"
  let (month, rest) ← short? rest
  let rest ← Text.strip? rest "-"
  let (day, rest) ← short? rest
  if 1 ≤ month ∧ month ≤ 12 ∧ 1 ≤ day ∧ day ≤ daysIn year month then some rest else none

def isPoint (g : Glyph) : Bool := g = .char '.' || g = .char ','

/-- The rest after a fraction of a second, if there is one. -/
def afterFraction : Text → Text
  | point :: d :: rest =>
    if isPoint point && (Text.digit? d).isSome then rest.dropWhile fun g => (Text.digit? g).isSome
    else point :: d :: rest
  | t => t

/-- Hours, minutes and seconds. -/
def clock? (t : Text) : Option Text := do
  let rest ← below? 24 t
  let rest ← below? 60 (← Text.strip? rest ":")
  let rest ← below? 60 (← Text.strip? rest ":")
  return afterFraction rest

/-- `Z`, or a distance of hours and minutes of two digits each. -/
def isZone : Text → Bool
  | [.char 'Z'] => true
  | [sign, h, h', .char ':', m, m'] =>
    (sign = .char '+' || sign = .char '-') &&
      (Text.readNat? [h, h']).any (· ≤ 24) && (Text.readNat? [m, m']).any (· ≤ 60)
  | _ => false

end Timestamp

open Timestamp in
def isTimestamp (t : Text) : Bool :=
  match date? t with
  | none => false
  | some [] => true
  | some (.char ' ' :: rest) => clock? (rest.dropWhile (· = .char ' ')) = some []
  | some (.char c :: rest) => (c = 'T' || c = 't') && (clock? rest).any isZone
  | some _ => false

end Yaml

end CallerTree
