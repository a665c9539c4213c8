import CallerTree.Binary64
import CallerTree.Text.Base64
import CallerTree.Yaml.Cursor
import CallerTree.Yaml.Timestamp

/-!
# What scalars mean

A plain scalar without a tag is read as null, a truth value, a number, a timestamp or a text. A tag
says what it has to be.
-/

namespace CallerTree

namespace Yaml

/-- A number with a fraction or an exponent. -/
inductive Real where
  | nan
  | infinite (negative : Bool)
  | finite (negative : Bool) (size : Binary64)
  deriving DecidableEq, Repr

inductive Value where
  | null
  | bool (b : Bool)
  | int (n : Int)
  | real (x : Real)
  | time
  | text (t : Text)
  deriving DecidableEq, Repr

/-! ### Tags -/

namespace Tag

def null : Text := "!!null"
def bool : Text := "!!bool"
def int : Text := "!!int"
def real : Text := "!!float"
def time : Text := "!!timestamp"
def text : Text := "!!str"
def binary : Text := "!!binary"
def merge : Text := "!!merge"
def sequence : Text := "!!seq"
def mapping : Text := "!!map"

/-- The standard tags have a short spelling. -/
def short (t : Text) : Text :=
  match Text.strip? t "tag:yaml.org,2002:" with
  | some rest => "!!" ++ rest
  | none => t

end Tag

def Value.tag : Value → Text
  | .null => Tag.null
  | .bool _ => Tag.bool
  | .int _ => Tag.int
  | .real _ => Tag.real
  | .time => Tag.time
  | .text _ => Tag.text

/-! ### Numbers -/

def digitBelow? (base : Nat) : Glyph → Option Nat
  | .char c => (if c.isDigit then some (c.toNat - 48)
      else if 'a' ≤ c ∧ c ≤ 'z' then some (c.toNat - 87)
      else if 'A' ≤ c ∧ c ≤ 'Z' then some (c.toNat - 55)
      else none).filter (· < base)
  | .stray _ => none

/-- A number without a sign in a base. -/
def natIn? (base : Nat) (t : Text) : Option Nat :=
  if t.isEmpty then none
  else do return (← t.mapM (digitBelow? base)).foldl (fun n d => n * base + d) 0

/-- A number without a sign; a leading zero announces another base. -/
def prefixedNat? (t : Text) : Option Nat :=
  match t with
  | .char '0' :: .char b :: d :: rest =>
    if b = 'x' ∨ b = 'X' then natIn? 16 (d :: rest)
    else if b = 'o' ∨ b = 'O' then natIn? 8 (d :: rest)
    else if b = 'b' ∨ b = 'B' then natIn? 2 (d :: rest)
    else natIn? 8 (.char b :: d :: rest)
  | .char '0' :: d :: rest => natIn? 8 (d :: rest)
  | t => natIn? 10 t

/-- A number with an optional sign in the signed range, or without a sign in the unsigned one. -/
def word? (nat? : Text → Option Nat) (t : Text) : Option Int :=
  match t with
  | .char '-' :: rest => (nat? rest).bind fun n => Text.fit64? (-(n : Int))
  | .char '+' :: rest => (nat? rest).bind fun n => Text.fit64? n
  | t => (nat? t).bind fun n => if n < Nat.pow 2 64 then some n else none

/-- An integer. A sign may also stand behind the letter that announces base 2 or 8. -/
def integer? (t : Text) : Option Int :=
  word? prefixedNat? t <|>
    match t with
    | .char '0' :: .char 'b' :: rest => word? (natIn? 2) rest
    | .char '-' :: .char '0' :: .char 'b' :: rest => word? (natIn? 2) (.char '-' :: rest)
    | .char '0' :: .char 'o' :: rest => word? (natIn? 8) rest
    | .char '-' :: .char '0' :: .char 'o' :: rest => word? (natIn? 8) (.char '-' :: rest)
    | _ => none

/-- The exponent behind a number: a sign and digits, or nothing. -/
def exponent? : Text → Option Int
  | [] => some 0
  | .char e :: rest =>
    if e = 'e' ∨ e = 'E' then
      match rest with
      | .char '-' :: digits => (natIn? 10 digits).map fun n => -(n : Int)
      | .char '+' :: digits => (natIn? 10 digits).map fun n => n
      | digits => (natIn? 10 digits).map fun n => n
    else none
  | _ => none

/-- The number `digits * 10 ^ exponent`, unless it is too large. -/
def decimal? (digits : Nat) (exponent : Int) : Option Binary64 :=
  let width : Int := (Nat.toDigits 10 digits).length
  if digits = 0 ∨ exponent + width < -400 then some ⟨0, 0⟩
  else if 400 < exponent + width then none
  else if 0 ≤ exponent then Binary64.round? (digits * Nat.pow 10 exponent.toNat) 1
  else Binary64.round? digits (Nat.pow 10 (-exponent).toNat)

/-- A decimal number: digits, of which some may stand behind a point, and an exponent. -/
def unsignedReal? (t : Text) : Option Binary64 := do
  let isDigit := fun g => (Text.digit? g).isSome
  let whole := t.takeWhile isDigit
  let rest := t.dropWhile isDigit
  let (fraction, rest) := match rest with
    | .char '.' :: rest => (rest.takeWhile isDigit, rest.dropWhile isDigit)
    | rest => ([], rest)
  let digits ← natIn? 10 (whole ++ fraction)
  decimal? digits ((← exponent? rest) - fraction.length)

def real? : Text → Option Real
  | .char '-' :: t => (unsignedReal? t).map (.finite true)
  | .char '+' :: t => (unsignedReal? t).map (.finite false)
  | t => (unsignedReal? t).map (.finite false)

/-! ### Plain scalars -/

/-- Scalars that are written as one of a few words. -/
def word : List (Text × Value) := [
  ("", .null), ("~", .null), ("null", .null), ("Null", .null), ("NULL", .null),
  ("true", .bool true), ("True", .bool true), ("TRUE", .bool true),
  ("false", .bool false), ("False", .bool false), ("FALSE", .bool false),
  (".nan", .real .nan), (".NaN", .real .nan), (".NAN", .real .nan),
  (".inf", .real (.infinite false)), (".Inf", .real (.infinite false)),
  (".INF", .real (.infinite false)), ("+.inf", .real (.infinite false)),
  ("+.Inf", .real (.infinite false)), ("+.INF", .real (.infinite false)),
  ("-.inf", .real (.infinite true)), ("-.Inf", .real (.infinite true)),
  ("-.INF", .real (.infinite true))]

/-- Drops underscores, if all of them stand between two digits. -/
def joined? : (afterDigit : Bool) → Text → Option Text
  | _, [] => some []
  | afterDigit, .char '_' :: d :: rest =>
    if afterDigit && (Text.digit? d).isSome then (joined? true rest).map (d :: ·) else none
  | _, g :: rest =>
    if g = .char '_' then none else (joined? (Text.digit? g).isSome rest).map (g :: ·)

/-- A scalar that begins like a number. Underscores do not count; behind a leading point they have
to stand between digits. -/
def numeric? (timesAllowed : Bool) (t : Text) : Option Value :=
  match t.head? with
  | some (.char '.') => ((joined? false t).bind real?).map .real
  | some (.char c) =>
    if c.isDigit || c = '+' || c = '-' then
      let plain := t.filter (· ≠ .char '_')
      if timesAllowed && isTimestamp t then some .time
      else (integer? plain).map .int <|> (real? plain).map .real
    else none
  | _ => none

/-- The meaning of a plain scalar. -/
def plainValue (timesAllowed : Bool) (t : Text) : Value :=
  (word.lookup t <|> numeric? timesAllowed t).getD (.text t)

/-! ### Tagged scalars -/

/-- Tags whose scalars have to be of that kind. -/
def Tag.isChecked (tag : Text) : Bool :=
  [Tag.bool, Tag.int, Tag.real, Tag.null, Tag.time].contains tag

/-- The meaning of a scalar under a tag. An integer in the signed range is also a real number. -/
def taggedValue (tag t : Text) : Except SyntaxError Value :=
  if tag = Tag.binary then
    match Base64.decode? (t.map Glyph.toChar) with
    | some bytes => .ok (.text (Text.ofUtf8 bytes))
    | none => .error (fault "!!binary value contains invalid base64 data")
  else if !Tag.isChecked tag then .ok (.text t)
  else
    let value := plainValue (tag = Tag.time) t
    let refused : Text := "cannot decode " ++ value.tag ++ " \x60" ++ t ++ "\x60 as a " ++ tag
    if value.tag = tag then .ok value
    else match value with
      | .int n =>
        if tag = Tag.real && n ≤ maxInt64 then
          match decimal? n.natAbs 0 with
          | some x => .ok (.real (.finite (n < 0) x))
          | none => .error (fault refused)
        else .error (fault refused)
      | _ => .error (fault refused)

end Yaml

end CallerTree
