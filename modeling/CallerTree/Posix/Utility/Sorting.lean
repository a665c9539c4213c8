import CallerTree.Posix.Utility.Lines

/-!
# Sorting lines

Lines are sorted by a rule, and then by all their bytes.
-/

namespace CallerTree

namespace Posix

namespace Utility

def isSortBlank (c : Char) : Bool := c = ' ' || c = '\t'

def compareChars (a b : List Char) : Ordering :=
  match a, b with
  | [], [] => .eq
  | [], _ => .lt
  | _, [] => .gt
  | x :: a, y :: b => if x < y then .lt else if y < x then .gt else compareChars a b

/-- The number at the start of a line, in units of `10 ^ -places`. -/
def sortNumber (cs : List Char) : Int × Nat :=
  let cs := cs.dropWhile isSortBlank
  let (sign, cs) : Int × List Char := match cs with
    | '-' :: cs => (-1, cs)
    | cs => (1, cs)
  let whole := cs.takeWhile Char.isDigit
  let fraction := match cs.drop whole.length with
    | '.' :: rest => rest.takeWhile Char.isDigit
    | _ => []
  let n : Nat := (whole ++ fraction).foldl (fun n c => 10 * n + (c.toNat - 48)) 0
  (sign * (n : Int), fraction.length)

def compareNumbers (a b : List Char) : Ordering :=
  let (m, p) := sortNumber a
  let (n, q) := sortNumber b
  compare (m * Nat.pow 10 q) (n * Nat.pow 10 p)

/-- Compares two lines by the rules that are asked for. -/
def compareBy (o : Options) (a b : List Char) : Ordering :=
  let plain := if o.has 'n' then compareNumbers a b
    else
      let kept := fun (cs : List Char) =>
        let cs := if o.has 'b' then cs.dropWhile isSortBlank else cs
        if o.has 'f' then cs.map Char.toUpper else cs
      compareChars (kept a) (kept b)
  if o.has 'r' then plain.swap else plain

/-- Compares two lines; those that the rules do not tell apart are compared by their bytes. -/
def compareLines (o : Options) (a b : List Char) : Ordering :=
  let byRules := compareBy o a b
  if o.has 's' || o.has 'u' then byRules
  else
    let byBytes := compareChars a b
    byRules.then (if o.has 'r' then byBytes.swap else byBytes)

/-- Leaves the first of lines that the rules do not tell apart. -/
def withoutEqual (o : Options) : List (List Char) → List (List Char)
  | [] => []
  | a :: rest =>
    match withoutEqual o rest with
    | [] => [a]
    | b :: more => if compareBy o a b = .eq then a :: more else a :: b :: more

/-- Sorts lines. -/
def sort : Utility := fun c =>
  let table : OptionTable := {
    plain := "bfnrsu"
    long := [("reverse", 'r'), ("numeric-sort", 'n'), ("unique", 'u'), ("stable", 's'),
      ("ignore-case", 'f'), ("ignore-leading-blanks", 'b')] }
  match table.read c.args with
  | .error e => misuse ("sort: " ++ e ++ "\n" ++ seeHelp "sort") 2
  | .ok o => do
    let (found, err) := sources c o.operands fun path reason =>
      if reason = systemText .isFolder then "sort: read failed: " ++ path ++ ": " ++ reason
      else "sort: cannot read: " ++ path ++ ": " ++ reason
    if !err.isEmpty then return { err, status := 2 }
    let data ← found.mapM fun (_, s) => s.all?
    let lines := (data.flatMap linesOf).map octetsOfBytes
    let sorted := lines.mergeSort fun a b => compareLines o a b != .gt
    let sorted := if o.has 'u' then withoutEqual o sorted else sorted
    return { out := .ofBytes (unlines (sorted.map bytesOf)) }

end Utility

end Posix

end CallerTree
