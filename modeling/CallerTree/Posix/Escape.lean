import CallerTree.Text.Numeral
import CallerTree.Text.Utf8

/-!
# Escapes and formats

Escapes with a backslash, and the formats of `printf`.
-/

namespace CallerTree

namespace Posix

/-! ### Escapes -/

def octalDigit? (g : Glyph) : Option Nat := (Text.digit? g).filter (· < 8)

/-- A number of at most `width` octal digits, and what follows. -/
def octal (width : Nat) (t : Text) : Nat × Text :=
  let digits := (t.take width).takeWhile fun g => (octalDigit? g).isSome
  (digits.foldl (fun n g => n * 8 + (octalDigit? g).getD 0) 0, t.drop digits.length)

/-- The byte that a letter behind a backslash stands for. -/
def escapeLetter? : Glyph → Option UInt8
  | .char 'a' => some 7
  | .char 'b' => some 8
  | .char 'f' => some 12
  | .char 'n' => some 10
  | .char 'r' => some 13
  | .char 't' => some 9
  | .char 'v' => some 11
  | .char '\\' => some 92
  | _ => none

/-- Writes out escapes as `echo` does: octal numbers start with a zero, and a `c` ends everything.
Tells whether it was ended so. -/
def unescape : (fuel : Nat) → Text → Bytes × Bool
  | 0, _ => ([], false)
  | _, [] => ([], false)
  | fuel + 1, .char '\\' :: g :: rest =>
    if g = .char 'c' then ([], true)
    else
      let (bytes, rest) :=
        if g = .char '0' then
          let (n, rest) := octal 3 rest
          ([n.toUInt8], rest)
        else match escapeLetter? g with
          | some b => ([b], rest)
          | none => (Text.utf8 ['\\', g], rest)
      let (more, ended) := unescape fuel rest
      (bytes ++ more, ended)
  | fuel + 1, g :: rest =>
    let (more, ended) := unescape fuel rest
    (Text.utf8 [g] ++ more, ended)

/-! ### Formats -/

/-- A conversion of a format. -/
structure Conversion where
  flags : Text := []
  width : Nat := 0
  precision : Option Nat := none
  letter : Char
  deriving DecidableEq, Repr

inductive FormatPart where
  | bytes (b : Bytes)
  | conversion (c : Conversion)
  /-- An end that `\c` asks for. -/
  | halt
  deriving DecidableEq, Repr

/-- Splits a format into its parts. -/
def formatParts : (fuel : Nat) → Text → List FormatPart
  | 0, _ => []
  | _, [] => []
  | fuel + 1, .char '\\' :: g :: rest =>
    if (octalDigit? g).isSome then
      let (n, rest) := octal 3 (g :: rest)
      .bytes [n.toUInt8] :: formatParts fuel rest
    else if g = .char 'c' then [.halt]
    else match escapeLetter? g with
      | some b => .bytes [b] :: formatParts fuel rest
      | none => .bytes (Text.utf8 ['\\', g]) :: formatParts fuel rest
  | fuel + 1, .char '%' :: .char '%' :: rest => .bytes [37] :: formatParts fuel rest
  | fuel + 1, .char '%' :: rest =>
    let isFlag : Glyph → Bool := fun g => ([.char '-', .char '+', .char ' ', .char '#', .char '0'] :
      List Glyph).contains g
    let isDigit : Glyph → Bool := fun g => (Text.digit? g).isSome
    let flags := rest.takeWhile isFlag
    let rest := rest.dropWhile isFlag
    let width := (Text.readNat? (rest.takeWhile isDigit)).getD 0
    let rest := rest.dropWhile isDigit
    let (precision, rest) := match rest with
      | .char '.' :: rest =>
        (some ((Text.readNat? (rest.takeWhile isDigit)).getD 0), rest.dropWhile isDigit)
      | rest => (none, rest)
    match rest with
    | .char letter :: rest =>
      .conversion { flags, width, precision, letter } :: formatParts fuel rest
    | rest => .bytes [37] :: formatParts fuel rest
  | fuel + 1, g :: rest => .bytes (Text.utf8 [g]) :: formatParts fuel rest

/-- The digits of a number at the start of a text, its base, and what follows. A zero announces base
8, and a zero with an `x` base 16. -/
def leadingDigitsOf (t : Text) : Nat × Text :=
  let value := fun (base : Nat) (t : Text) =>
    let digit? : Glyph → Option Nat := fun g => (match g with
      | .char c =>
        if c.isDigit then some (c.toNat - 48)
        else if 'a' ≤ c.toLower ∧ c.toLower ≤ 'f' then some (c.toLower.toNat - 87)
        else none
      | .stray _ => none).filter (· < base)
    let digits := t.takeWhile fun g => (digit? g).isSome
    (digits.foldl (fun n g => n * base + (digit? g).getD 0) 0, t.drop digits.length)
  match t with
  | .char '0' :: .char x :: rest =>
    if x = 'x' ∨ x = 'X' then value 16 rest else value 8 (.char x :: rest)
  | t => value 10 t

/-- A number as an argument of `printf`, and what is wrong with it. -/
def formatNumber (t : Text) : Int × Option Text :=
  match t with
  | [] => (0, none)
  | .char '\'' :: rest | .char '"' :: rest => ((Text.utf8 rest).headD 0 |>.toNat, none)
  | t =>
    let body := t.dropWhile fun g => g = .char ' ' || g = .char '\t' || g = .char '\n'
    let (sign, digits) : Int × Text := match body with
      | .char '-' :: rest => (-1, rest)
      | .char '+' :: rest => (1, rest)
      | rest => (1, rest)
    if !(digits.head?.any fun g => (Text.digit? g).isSome) then
      (0, some (t ++ ": expected numeric value"))
    else
      let (n, rest) := leadingDigitsOf digits
      (sign * (n : Int), if rest.isEmpty then none else some (t ++ ": not completely converted"))

def padTo (c : Conversion) (b : Bytes) : Bytes :=
  let blanks := List.replicate (c.width - b.length) (32 : UInt8)
  if c.flags.any (· = .char '-') then b ++ blanks else blanks ++ b

/-- The digits of a number with its sign, padded. -/
def padNumber (c : Conversion) (isNegative : Bool) (digits : Text) : Bytes :=
  let has := fun x => c.flags.any (· = Glyph.char x)
  let digits := List.replicate ((c.precision.getD 1) - digits.length) (.char '0') ++ digits
  let sign : Text :=
    if isNegative then "-" else if has '+' then "+" else if has ' ' then " " else []
  let zeros := if has '0' && !has '-' && c.precision.isNone then
      List.replicate (c.width - sign.length - digits.length) (Glyph.char '0') else []
  padTo c (sign ++ zeros ++ digits).utf8

def digitsIn (base : Nat) (n : Nat) : Text := Text.ofChars (Nat.toDigits base n)

/-- Writes an argument as a conversion says, and tells what is wrong with it. -/
def Conversion.write (c : Conversion) (arg : Text) : Bytes × Option Text :=
  let cut := fun (b : Bytes) => match c.precision with
    | some n => b.take n
    | none => b
  match c.letter with
  | 's' => (padTo c (cut arg.utf8), none)
  | 'b' => (padTo c (cut (unescape (arg.length + 1) arg).1), none)
  | 'c' => (padTo c (arg.utf8.take 1), none)
  | letter =>
    let (n, problem) := formatNumber arg
    let bits := (n.emod 0x10000000000000000).toNat
    if letter = 'd' ∨ letter = 'i' then
      (padNumber c (n < 0) (digitsIn 10 n.natAbs), problem)
    else if letter = 'u' then (padNumber c false (digitsIn 10 bits), problem)
    else if letter = 'o' then (padNumber c false (digitsIn 8 bits), problem)
    else if letter = 'x' then (padNumber c false (digitsIn 16 bits), problem)
    else if letter = 'X' then
      (padNumber c false ((digitsIn 16 bits).map fun
        | .char d => .char d.toUpper
        | g => g), problem)
    else ([], none)

/-- Writes the parts of a format once; gives the arguments that are left, what is wrong with those
that were used, and whether all is over. -/
def formatOnce : List FormatPart → (args : List Text) → Bytes × List Text × List Text × Bool
  | [], args => ([], args, [], false)
  | .bytes b :: parts, args =>
    let (more, args, bad, isOver) := formatOnce parts args
    (b ++ more, args, bad, isOver)
  | .halt :: _, args => ([], args, [], true)
  | .conversion c :: parts, args =>
    let (b, problem) := c.write (args.headD [])
    let (more, args, bad, isOver) := formatOnce parts args.tail
    (b ++ more, args, problem.toList ++ bad, isOver)

/-- Writes a format as often as there are arguments left, and at least once. -/
def format (parts : List FormatPart) :
    (fuel : Nat) → (args : List Text) → Bytes × List Text
  | 0, _ => ([], [])
  | fuel + 1, args =>
    let (b, left, bad, isOver) := formatOnce parts args
    if isOver || left.isEmpty || left.length = args.length then (b, bad)
    else
      let (more, worse) := format parts fuel left
      (b ++ more, bad ++ worse)

end Posix

end CallerTree
