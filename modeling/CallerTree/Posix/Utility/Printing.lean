import CallerTree.Posix.Regex
import CallerTree.Posix.Utility.Basic

/-!
# Utilities that print

`echo`, `printf`, `seq` and `yes`. The first two exist also as commands of the shell.
-/

namespace CallerTree

namespace Posix

namespace Utility

/-- Splits leading options made of the letters `n`, `e` and `E` from the rest. -/
def echoOptions : List Text → Text × List Text
  | a :: args =>
    match a with
    | .char '-' :: letters@(_ :: _) =>
      if letters.all fun g => g = .char 'n' || g = .char 'e' || g = .char 'E' then
        let (more, rest) := echoOptions args
        (letters ++ more, rest)
      else ([], a :: args)
    | _ => ([], a :: args)
  | [] => ([], [])

/-- Prints its arguments; escapes are written out only on request. -/
def echo : Utility := fun c =>
  let (options, words) := echoOptions c.args
  let line := Text.join " " words
  let newline : Bytes := if options.any (· = .char 'n') then [] else [10]
  let escapes := (options.reverse.find? fun g => g = .char 'e' || g = .char 'E') = some (.char 'e')
  if escapes then
    let (b, ended) := unescape (line.length + 1) line
    done (.ofBytes (if ended then b else b ++ newline))
  else done (.ofBytes (line.utf8 ++ newline))

/-- Prints its arguments with escapes written out, as the shell itself does. -/
def shellEcho : Utility := fun c =>
  let (newline, words) := match c.args with
    | [.char '-', .char 'n'] :: words => (([] : Bytes), words)
    | words => ([10], words)
  let line := Text.join " " words
  let (b, ended) := unescape (line.length + 1) line
  done (.ofBytes (if ended then b else b ++ newline))

/-- Prints its arguments in a format. -/
def printf (name : Text) : Utility := fun c =>
  let args := if c.args.head? = some (Text.ofString "--") then c.args.tail else c.args
  match args with
  | [] => misuse (name ++ "printf: usage: printf format [arg ...]") 2
  | f :: args =>
    let (b, bad) := format (formatParts (f.length + 1) f) (args.length + 1) args
    some {
      out := .ofBytes b
      err := bad.flatMap fun t => (name ++ "printf: " ++ t ++ "\n" : Text)
      status := if bad.isEmpty then 0 else 1 }

/-! ### Counting -/

/-- Counts from one number to another. -/
def seq : Utility := fun c =>
  let (isPadded, operands) := match c.args with
    | [.char '-', .char 'w'] :: operands => (true, operands)
    | operands => (false, operands)
  match operands.find? fun a => (Text.readInt? a).isNone, operands.filterMap Text.readInt? with
  | some a, _ => misuseOf "seq" ("invalid floating point argument: '" ++ a ++ "'")
  | none, [last] => count isPadded 1 1 last
  | none, [first, last] => count isPadded first 1 last
  | none, [first, step, last] => count isPadded first step last
  | none, [] => misuseOf "seq" "missing operand"
  | none, _ => misuseOf "seq" ("extra operand '" ++ (operands.drop 3).headD [] ++ "'")
where
  count (isPadded : Bool) (first step last : Int) : Option Effect :=
    if step = 0 then misuseOf "seq" "invalid Zero increment value: '0'"
    else
      let n := if 0 < step then (last - first) / step + 1 else (first - last) / (-step) + 1
      let numbers := (List.range n.toNat).map fun (i : Nat) => first + step * (i : Nat)
      let width := (numbers.map fun n => (Text.ofInt n).length).foldl max 0
      let shown := fun (n : Int) =>
        if isPadded then padNumber { flags := "0", width, letter := 'd' } (n < 0)
          (Text.ofNat n.natAbs)
        else (Text.ofInt n).utf8
      done (.ofBytes (unlines (numbers.map shown)))

/-- Prints a line for ever. -/
def yes : Utility := fun c =>
  let line : Text := if c.args.isEmpty then "y" else Text.join " " c.args
  done { remainder := .repeats (line ++ "\n").utf8 }

end Utility

end Posix

end CallerTree
