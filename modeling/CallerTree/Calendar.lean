import CallerTree.Text.Numeral

/-!
# Dates

A moment is a number of seconds since the start of 1970. It is shown as a date and a time of day in
universal time.
-/

namespace CallerTree

structure Date where
  year : Int
  month : Nat
  day : Nat
  deriving DecidableEq, Repr

namespace Date

/-- The date of a day, counted from the first of January 1970.

The years of an era of 400 start in March, so that a leap day is the last of its year. -/
def ofDays (n : Int) : Date :=
  let shifted := n + 719468
  let era := shifted.fdiv 146097
  let dayOfEra := (shifted - era * 146097).toNat
  let yearOfEra := (dayOfEra - dayOfEra / 1460 + dayOfEra / 36524 - dayOfEra / 146096) / 365
  let dayOfYear := dayOfEra - (365 * yearOfEra + yearOfEra / 4 - yearOfEra / 100)
  let fromMarch := (5 * dayOfYear + 2) / 153
  let month := if fromMarch < 10 then fromMarch + 3 else fromMarch - 9
  { year := era * 400 + yearOfEra + if month ≤ 2 then 1 else 0
    month, day := dayOfYear - (153 * fromMarch + 2) / 5 + 1 }

end Date

namespace Calendar

/-- A number with at least `width` digits. -/
def padded (width n : Nat) : Text :=
  let digits := Text.ofNat n
  List.replicate (width - digits.length) (.char '0') ++ digits

/-- A moment as date and time. -/
def shown (seconds : Int) : Text :=
  let days := seconds.fdiv 86400
  let rest := (seconds - days * 86400).toNat
  let d := Date.ofDays days
  padded 4 d.year.toNat ++ "-" ++ padded 2 d.month ++ "-" ++ padded 2 d.day ++ "T" ++
    padded 2 (rest / 3600) ++ ":" ++ padded 2 (rest / 60 % 60) ++ ":" ++ padded 2 (rest % 60) ++ "Z"

example : shown 0 = Text.ofString "1970-01-01T00:00:00Z" := by decide +kernel

example : shown 951782399 = Text.ofString "2000-02-28T23:59:59Z" := by decide +kernel

example : shown 951782400 = Text.ofString "2000-02-29T00:00:00Z" := by decide +kernel

end Calendar

end CallerTree
