import CallerTree.Text.Blank
import CallerTree.Text.Literal
import CallerTree.Text.Quoted
import CallerTree.Text.Utf8

/-!
# Flags

A command takes flags and positional arguments, in any order. A flag is written `--name value` or
`--name=value`; a switch needs no value. Everything behind `--` is positional.
-/

namespace CallerTree

namespace CommandLine

inductive FlagType where
  | text
  | int
  /-- A flag that is on when it is given without a value. -/
  | switch
  deriving DecidableEq, Repr

structure Flag where
  name : Text
  /-- A letter that stands for the name. -/
  letter : Option Char := none
  type : FlagType := .text
  usage : Text
  /-- The value if the flag is not given, as shown in the help. -/
  default : Text := []
  deriving DecidableEq, Repr

namespace Flag

/-- The flag that asks for help about a command. -/
def help (command : Text) : Flag where
  name := "help"
  letter := some 'h'
  type := .switch
  usage := "help for " ++ command

/-- The flag as messages name it. -/
def shown (f : Flag) : Text :=
  let long : Text := "--" ++ f.name
  match f.letter with
  | some c => "-" ++ [Glyph.char c] ++ ", " ++ long
  | none => long

/-- The truth values that a switch takes. -/
def truth? (t : Text) : Option Bool :=
  let yes : List Text := ["1", "t", "T", "true", "TRUE", "True"]
  let no : List Text := ["0", "f", "F", "false", "FALSE", "False"]
  if yes.contains t then some true else if no.contains t then some false else none

/-- Why a value does not fit the type of a flag. -/
def valueProblem? (f : Flag) (value : Text) : Option Text :=
  let parsing := fun (reader reason : Text) =>
    some ("strconv." ++ reader ++ ": parsing " ++ value.quoted ++ ": " ++ reason)
  match f.type with
  | .text => none
  | .int =>
    match Text.readLiteral value with
    | .ok _ => none
    | .error .malformed => parsing "ParseInt" "invalid syntax"
    | .error .outOfRange => parsing "ParseInt" "value out of range"
  | .switch => if (truth? value).isSome then none else parsing "ParseBool" "invalid syntax"

end Flag

/-! ### Values -/

structure Given where
  /-- The flags that were given with their values, the latest first. -/
  values : List (Text × Text) := []
  /-- The positional arguments. -/
  positional : List Text := []
  deriving DecidableEq, Repr

namespace Given

def text? (g : Given) (name : Text) : Option Text := g.values.lookup name

def int? (g : Given) (name : Text) : Option Int :=
  (g.values.lookup name).bind fun t => (Text.readLiteral t).toOption

def isOn (g : Given) (name : Text) : Bool := ((g.values.lookup name).bind Flag.truth?).getD false

end Given

/-- Sets a flag, if the value fits. -/
def set (f : Flag) (value : Text) (g : Given) : Except Text Given :=
  match f.valueProblem? value with
  | none => .ok { g with values := (f.name, value) :: g.values }
  | some problem =>
    .error ("invalid argument " ++ value.quoted ++ " for " ++ f.shown.quoted ++ " flag: " ++
      problem)

/-- A letter between single quotes. -/
def quotedLetter (c : Char) : Text :=
  if c = '\'' then "'\\''" else if c = '"' then "'\"'" else "'" ++ Text.quotedChar c ++ "'"

/-- The first byte of a text as a character; only the letters of the basic alphabet name flags. -/
def firstByte (t : Text) : Char := Char.ofNat (t.utf8.headD 0).toNat

/-- Reads letters behind a single dash; each stands for a flag, and one that needs a value takes the
rest. `next` are the arguments after them. Settings for test runs are passed over. -/
def parseLetters (flags : List Flag) (next : List Text) :
    (fuel : Nat) → (letters : Text) → Given → Except Text (Given × List Text)
  | 0, _, g => .ok (g, next)
  | _, [], g => .ok (g, next)
  | fuel + 1, letter :: rest, g =>
    let letters : Text := letter :: rest
    let first := firstByte letters
    let named := quotedLetter (firstByte [.char first])
    if letters.startsWith "test." then .ok (g, next)
    else match flags.find? (·.letter = some first) with
    | none => .error ("unknown shorthand flag: " ++ named ++ " in -" ++ letters)
    | some f =>
      match rest with
      | .char '=' :: v :: vs => do return (← set f (v :: vs) g, next)
      | rest =>
        if f.type = .switch then do
          parseLetters flags next fuel rest (← set f "true" g)
        else if !rest.isEmpty then do return (← set f rest g, next)
        else match next with
          | v :: next' => do return (← set f v g, next')
          | [] => .error ("flag needs an argument: " ++ named ++ " in -" ++ letters)

/-- Reads the arguments of a command that takes the given flags. -/
def parse (flags : List Flag) : (fuel : Nat) → List Text → Given → Except Text Given
  | 0, _, g => .ok g
  | _, [], g => .ok g
  | fuel + 1, s :: args, g =>
    let positional := parse flags fuel args { g with positional := g.positional ++ [s] }
    match s with
    | [.char '-', .char '-'] => .ok { g with positional := g.positional ++ args }
    | .char '-' :: .char '-' :: long =>
      if long.head? = some (.char '-') ∨ long.head? = some (.char '=') then
        .error ("bad flag syntax: " ++ s)
      else
        let (name, value?) := match Text.cut? long '=' with
          | some (name, value) => (name, some value)
          | none => (long, none)
        match flags.find? (·.name = name), value?, args with
        | none, _, _ => .error ("unknown flag: --" ++ name)
        | some f, some value, args => do parse flags fuel args (← set f value g)
        | some f, none, args =>
          if f.type = .switch then do parse flags fuel args (← set f "true" g)
          else match args with
            | value :: args => do parse flags fuel args (← set f value g)
            | [] => .error ("flag needs an argument: --" ++ name)
    | .char '-' :: [] => positional
    | .char '-' :: letters => do
      let (g, args) ← parseLetters flags args (letters.length + 1) letters g
      parse flags fuel args g
    | _ => positional

/-- The arguments that are not flags and not values of flags, as far as that can be told before the
command is known: a flag that is no known switch takes the next argument, unless that is the last
one. -/
def wordsOnly (flags : List Flag) : List Text → List Text
  | [] => []
  | s :: args =>
    if s = "--" then []
    else if takesNext flags s then
      match args with
      | [] | [_] => []
      | _ :: next :: rest => wordsOnly flags (next :: rest)
    else if s.isEmpty || s.head? = some (.char '-') then wordsOnly flags args
    else s :: wordsOnly flags args
where
  /-- An argument that looks like a flag whose value comes next. -/
  takesNext (flags : List Flag) (s : Text) : Bool :=
    let isSwitch := fun (p : Flag → Bool) => (flags.find? p).any (·.type = .switch)
    match s with
    | .char '-' :: .char '-' :: name =>
      !s.any (· = .char '=') && !isSwitch (fun f => f.name = name)
    | [.char '-', c] =>
      c ≠ .char '=' && (Text.utf8 [c]).length = 1 &&
        !isSwitch fun f => f.letter.any fun l => Glyph.char l = c
    | _ => false

/-- The arguments without the first word that is `x`. -/
def withoutWord (flags : List Flag) (x : Text) : List Text → List Text
  | [] => []
  | s :: args =>
    if s = "--" then s :: args
    else if wordsOnly.takesNext flags s then
      match args with
      | value :: rest => s :: value :: withoutWord flags x rest
      | [] => [s]
    else if s = x && s.head? ≠ some (.char '-') then args
    else s :: withoutWord flags x args

end CommandLine

end CallerTree
