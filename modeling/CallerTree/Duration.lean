import CallerTree.Binary64
import CallerTree.Text.Numeral

/-!
# Durations

A duration is a signed 64-bit number of nanoseconds. It is written as a sum of amounts with units,
such as `1h2m3.5s`.
-/

namespace CallerTree

namespace Duration

/-- The units that can be read, in nanoseconds. The micro sign has two spellings. -/
def units : List (Text × Nat) := [
  ("ns", 1), ("us", 1000), ("µs", 1000), ("μs", 1000), ("ms", 1000000), ("s", 1000000000),
  ("m", 60000000000), ("h", 3600000000000)]

def isDigit (g : Glyph) : Bool := (Text.digit? g).isSome

/-- The value of a run of digits, which may be empty. -/
def digitsValue (t : Text) : Nat := t.foldl (fun n g => n * 10 + (Text.digit? g).getD 0) 0

/-- The digits of a fraction that count, as a value and a power of ten. Digits beyond the range of a
word are ignored. -/
def fractionValue (t : Text) : Nat × Nat :=
  let (value, scale, _) := t.foldl (fun (value, scale, full) g =>
    if full || (Nat.pow 2 63 - 1) / 10 < value then (value, scale, true)
    else
      let next := value * 10 + (Text.digit? g).getD 0
      if Nat.pow 2 63 < next then (value, scale, true) else (next, scale * 10, false)) (0, 1, false)
  (value, scale)

/-- The nanoseconds of a fraction of a unit, rounded twice on the way and then cut. -/
def fractionNanos (value scale unit : Nat) : Nat :=
  (do (← (← Binary64.round? value 1).mul? (← Binary64.round? unit scale)).floor) |>.getD 0

/-- One amount with its unit, and the text after it. -/
def readAmount? (t : Text) : Option (Nat × Text) := do
  let whole := t.takeWhile isDigit
  let rest := t.dropWhile isDigit
  let value := digitsValue whole
  if Nat.pow 2 63 < value then none
  let (fraction, rest) := match rest with
    | .char '.' :: rest => (rest.takeWhile isDigit, rest.dropWhile isDigit)
    | rest => ([], rest)
  if whole.isEmpty && fraction.isEmpty then none
  let isUnit := fun g => g ≠ Glyph.char '.' && !isDigit g
  let unit ← units.lookup (rest.takeWhile isUnit)
  if Nat.pow 2 63 / unit < value then none
  let (part, scale) := fractionValue fraction
  let nanos := value * unit + if part = 0 then 0 else fractionNanos part scale unit
  if Nat.pow 2 63 < nanos then none
  return (nanos, rest.dropWhile isUnit)

/-- The sum of the amounts in a text, read with at most `fuel` amounts. -/
def readAmounts? : (fuel : Nat) → (sum : Nat) → Text → Option Nat
  | _, sum, [] => some sum
  | 0, _, _ => none
  | fuel + 1, sum, t => do
    let (nanos, rest) ← readAmount? t
    if Nat.pow 2 63 < sum + nanos then none
    readAmounts? fuel (sum + nanos) rest

/-- Amounts without a sign; a lone zero needs no unit. -/
def readMagnitude? (t : Text) : Option Nat :=
  if t = "0" then some 0
  else if t.isEmpty then none
  else readAmounts? t.length 0 t

/-- Reads a duration in nanoseconds. -/
def read? : Text → Option Int
  | .char '-' :: t => (readMagnitude? t).map fun n => -(n : Int)
  | .char '+' :: t => (readMagnitude? t).bind fun n => Text.fit64? n
  | t => (readMagnitude? t).bind fun n => Text.fit64? n

/-! ### Writing -/

/-- `n / 10 ^ places` without zeros at the end of the fraction. -/
def decimal (n places : Nat) : Text :=
  let fraction := n % Nat.pow 10 places
  let digits := Nat.toDigits 10 fraction
  let padded := List.replicate (places - digits.length) '0' ++ digits
  let kept := (padded.reverse.dropWhile (· = '0')).reverse
  Text.ofNat (n / Nat.pow 10 places) ++
    if kept.isEmpty then ([] : Text) else .char '.' :: Text.ofChars kept

def writeMagnitude (n : Nat) : Text :=
  if n = 0 then "0s"
  else if n < 1000 then Text.ofNat n ++ "ns"
  else if n < 1000000 then decimal n 3 ++ "µs"
  else if n < 1000000000 then decimal n 6 ++ "ms"
  else
    let minutes := n / 60000000000
    let seconds := decimal (n % 60000000000) 9 ++ "s"
    if minutes = 0 then seconds
    else if minutes < 60 then Text.ofNat minutes ++ "m" ++ seconds
    else Text.ofNat (minutes / 60) ++ "h" ++ Text.ofNat (minutes % 60) ++ "m" ++ seconds

def write (n : Int) : Text :=
  if n < 0 then "-" ++ writeMagnitude n.natAbs else writeMagnitude n.natAbs

end Duration

end CallerTree
