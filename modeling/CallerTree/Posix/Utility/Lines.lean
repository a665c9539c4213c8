import CallerTree.Posix.Regex
import CallerTree.Posix.Utility.Basic

/-!
# Utilities on lines

Programs that copy, count, cut and join the lines of their sources.
-/

namespace CallerTree

namespace Posix

namespace Utility

/-! ### Copying -/

/-- Copies its sources. -/
def cat : Utility := fun c =>
  withOptions "cat" { plain := "u" } c fun o =>
    let (found, err) := sourcesFor "cat" c o.operands
    let out := found.foldl (fun s (_, t) => s.append t) {}
    if out.data.isEmpty && out.remainder = .unknown then none
    else some { out, err, status := failing err }

/-! ### Ends -/

/-- Options such as `-5` ask for a number of lines. -/
def withCounts (args : List Text) : List Text :=
  args.flatMap fun a => match a with
    | .char '-' :: digits@(_ :: _) =>
      if digits.all fun g => (Text.digit? g).isSome then ["-n", digits] else [a]
    | a => [a]

def endTable : OptionTable :=
  { plain := "qvzfF", valued := "nc"
    long := [("lines", 'n'), ("bytes", 'c'), ("quiet", 'q'), ("verbose", 'v'), ("follow", 'f')] }

/-- Writes what a function takes from each source, under a title if there are several. -/
def portions (name : Text) (c : Call) (o : Options) (f : Source → Option Bytes) :
    Option Effect := do
  let (found, err) := sources c o.operands fun path reason =>
    if reason = systemText .isFolder then name ++ ": error reading '" ++ path ++ "': " ++ reason
    else name ++ ": cannot open '" ++ path ++ "' for reading: " ++ reason
  let parts ← found.mapM fun (_, s) => f s
  let isTitled := o.has 'v' || (1 < o.operands.length && !o.has 'q')
  let titled := if !isTitled then parts else
    (found.zip parts).zipIdx.map fun (((path, _), part), i) =>
      let gap : Text := if i = 0 then [] else "\n"
      let title : Text := if path.isEmpty || path = "-" then "standard input" else path
      Text.utf8 (gap ++ "==> " ++ title ++ " <==\n") ++ part
  return { out := .ofBytes titled.flatten, err, status := failing err }

/-- The count that is asked for: whether of bytes, and its text. -/
def countOf (o : Options) : Bool × Text :=
  match o.given.reverse.find? fun g => g.1 = 'n' || g.1 = 'c' with
  | some (letter, value) => (letter = 'c', value)
  | none => (false, "10")

def badCount (name : Text) (isBytes : Bool) (t : Text) : Option Effect :=
  let unit : Text := if isBytes then "bytes" else "lines"
  misuse (name ++ ": invalid number of " ++ unit ++ ": '" ++ t ++ "'") 1

/-- The number of lines; the last one may lack its end. -/
def lineCount (data : Bytes) : Nat :=
  Source.countLines data + if data.getLast? = some 10 ∨ data = [] then 0 else 1

def head : Utility := fun c =>
  withOptions "head" endTable { c with args := withCounts c.args } fun o =>
    let (isBytes, value) := countOf o
    let (fromEnd, digits) := match value with
      | .char '-' :: digits => (true, digits)
      | digits => (false, digits)
    match Text.readNat? digits with
    | none => badCount "head" isBytes value
    | some n => portions "head" c o fun s =>
      if fromEnd then do
        let data ← s.all?
        return if isBytes then data.take (data.length - n)
          else data.take (Source.lengthOfLines (lineCount data - n) data)
      else if isBytes then s.take? n
      else s.takeLines? n

def tail : Utility := fun c =>
  withOptions "tail" endTable { c with args := withCounts c.args } fun o =>
    let (isBytes, value) := countOf o
    let (fromStart, digits) := match value with
      | .char '+' :: digits => (true, digits)
      | .char '-' :: digits => (false, digits)
      | digits => (false, digits)
    match Text.readNat? digits with
    | none => badCount "tail" isBytes digits
    | some n =>
      if o.has 'f' && !o.operands.isEmpty then none
      else portions "tail" c o fun s => do
        let data ← s.all?
        if isBytes then
          return if fromStart then data.drop (n - 1) else lastOf n data
        else if fromStart then return data.drop (Source.lengthOfLines (n - 1) data)
        else return data.drop (Source.lengthOfLines (lineCount data - n) data)

/-! ### Counting -/

/-- Counts lines, words and bytes. -/
def wc : Utility := fun c =>
  let table : OptionTable := {
    plain := "lwcm"
    long := [("lines", 'l'), ("words", 'w'), ("bytes", 'c'), ("chars", 'm')] }
  withOptions "wc" table c fun o => do
    let (found, err) := sourcesFor "wc" c o.operands
    let asked : List Char := ['l', 'w', 'm', 'c'].filter fun l =>
      if o.given.isEmpty then l = 'l' || l = 'w' || l = 'c' else o.has l
    let rows ← found.mapM fun (path, s) => do
      let data ← s.all?
      let count := fun (l : Char) =>
        if l = 'l' then Source.countLines data
        else if l = 'w' then (Text.words (Text.ofUtf8 data)).length
        else data.length
      return (path, asked.map count, data.length)
    let totals := rows.foldl (fun sums (_, counts, _) => List.zipWith (· + ·) sums counts)
      (asked.map fun _ => 0)
    let size := (rows.map fun r => r.2.2).foldl (· + ·) 0
    let width :=
      if asked.length = 1 && o.operands.length ≤ 1 then 1
      else if o.operands.isEmpty || o.operands.contains "-" then 7
      else (Text.ofNat size).length
    let line := fun (path : Text) (counts : List Nat) =>
      Text.join " " (counts.map fun n => padLeft width (Text.ofNat n)) ++
        (if path.isEmpty then ([] : Text) else " " ++ path) ++ "\n"
    let lines := rows.map fun (path, counts, _) => line path counts
    let lines := if 1 < o.operands.length then lines ++ [line "total" totals] else lines
    return { out := .ofText lines.flatten, err, status := failing err }

/-! ### Changing lines -/

/-- Changes the lines of all sources. -/
def lineFilter (c : Call) (name : Text) (paths : List Text) (f : List Bytes → List Bytes) :
    Option Effect := do
  let (found, err) := sources c paths fun path reason => name ++ ": " ++ path ++ ": " ++ reason
  let data ← found.mapM fun (_, s) => s.all?
  return { out := .ofBytes (unlines (f (data.flatMap linesOf))), err, status := failing err }

/-- Runs of lines that count as equal. -/
def runs (same : Bytes → Bytes → Bool) (lines : List Bytes) : List (Bytes × Nat) :=
  (lines.foldl (fun (out : List (Bytes × Nat)) l =>
    match out with
    | (first, n) :: more => if same first l then (first, n + 1) :: more else (l, 1) :: out
    | [] => [(l, 1)]) []).reverse

/-- Leaves one of several equal lines in a row. -/
def uniq : Utility := fun c =>
  let table : OptionTable := {
    plain := "cdiu"
    long := [("count", 'c'), ("repeated", 'd'), ("unique", 'u'), ("ignore-case", 'i')] }
  withOptions "uniq" table c fun o =>
    lineFilter c "uniq" (o.operands.take 1) fun lines =>
      let key := fun (line : Bytes) =>
        let cs := octetsOfBytes line
        if o.has 'i' then cs.map Char.toLower else cs
      let found := runs (fun a b => key a = key b) lines
      let kept := found.filter fun (_, n) =>
        (!o.has 'd' || 1 < n) && (!o.has 'u' || n = 1)
      kept.flatMap fun (line, n) =>
        if o.has 'c' then [(padLeft 7 (Text.ofNat n) ++ " " : Text).utf8 ++ line]
        else [line]

/-! ### Columns -/

/-- The positions that a list such as `1,3-4` names. -/
def positions (t : Text) : Nat → Bool := fun n =>
  (t.split ',').any fun range =>
    match Text.cut? range '-' with
    | none => Text.readNat? range = some n
    | some (lo, hi) =>
      (Text.readNat? lo).getD 1 ≤ n && (hi.isEmpty || n ≤ (Text.readNat? hi).getD 0)

/-- Cuts bytes or fields out of lines. -/
def cut : Utility := fun c =>
  let table : OptionTable := {
    plain := "sn", valued := "bcfd"
    long := [("bytes", 'b'), ("characters", 'c'), ("fields", 'f'), ("delimiter", 'd'),
      ("only-delimited", 's')] }
  withOptions "cut" table c fun o =>
    let lists := (['b', 'c', 'f'].flatMap o.values)
    let isField := o.has 'f'
    let delimiter := octets ((o.value? 'd').getD "\t")
    match lists with
    | [] => misuseOf "cut" "you must specify a list of bytes, characters, or fields"
    | [list] =>
      if delimiter.length ≠ 1 then misuseOf "cut" "the delimiter must be a single character"
      else if !isField && o.has 'd' then
        misuseOf "cut" "an input delimiter may be specified only when operating on fields"
      else
        let kept := fun {α : Type} (l : List α) =>
          ((l.zipIdx.filter fun p => positions list (p.2 + 1)).map (·.1) : List α)
        let pick : List Char → Option (List Char) := fun cs =>
          if !isField then some (kept cs)
          else if !cs.any (delimiter.contains ·) then if o.has 's' then none else some cs
          else some (delimiter.intercalate (kept (pieces (delimiter.contains ·) cs)))
        lineFilter c "cut" o.operands fun lines =>
          lines.filterMap fun l => (pick (octetsOfBytes l)).map bytesOf
    | _ => misuseOf "cut" "only one list may be specified"

end Utility

end Posix

end CallerTree
