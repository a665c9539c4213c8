import CallerTree.FileSystem
import CallerTree.Posix.Escape
import CallerTree.Posix.Source
import CallerTree.Text.Blank

/-!
# Utilities

The usual small programs are functions from their arguments and their input to what they write.

## Contract

`none` stands for a utility that never ends and writes nothing any more. One that never ends but
keeps writing has an endless output.

## Implementation notes

Arguments that are options are told from operands in one place (`OptionTable.read`), so that a
utility looks at its options by their letters only.
-/

namespace CallerTree

namespace Posix

/-- What a utility is given. -/
structure Call where
  args : List Text
  input : Source := {}
  files : FileSystem

/-- What a utility does. -/
structure Effect where
  out : Source := {}
  err : Text := []
  status : Nat := 0
  /-- The time it takes, in nanoseconds. -/
  delay : Nat := 0
  /-- The files afterwards, if it changes them. -/
  files : Option FileSystem := none

abbrev Utility := Call → Option Effect

/-- A failure as the operating system words it. -/
def systemText : FileError → Text
  | .missing => "No such file or directory"
  | .notFolder => "Not a directory"
  | .isFolder => "Is a directory"
  | .tooManyLinks => "Too many levels of symbolic links"
  | .nameTooLong => "File name too long"
  | .badArgument => "Invalid argument"
  | .denied => "Permission denied"
  | .badFormat => "Exec format error"

/-- Opens a file or a device for reading. -/
def openSource (files : FileSystem) (input : Source) (path : Text) : Except FileError Source :=
  if path = "/dev/null" then .ok {}
  else if path = "/dev/zero" then .ok .zeros
  else if path = "/dev/stdin" then .ok input
  else match files.entry true path with
    | .error e => .error e
    | .ok (.file _ data) => .ok (.ofBytes data)
    | .ok _ => .error .isFolder

namespace Utility

def done (out : Source) : Option Effect := some { out }

def print (t : Text) : Option Effect := done (.ofText t)

/-- A utility that was misused. -/
def misuse (err : Text) (status : Nat) : Option Effect := some { err := err ++ "\n", status }

def seeHelp (name : Text) : Text := "Try '" ++ name ++ " --help' for more information."

/-- A utility that was misused and points to its help. -/
def misuseOf (name err : Text) : Option Effect :=
  misuse (name ++ ": " ++ err ++ "\n" ++ seeHelp name) 1

/-! ### Options -/

/-- The options that a utility understands. -/
structure OptionTable where
  /-- Letters that stand alone. -/
  plain : String := ""
  /-- Letters that take a value. -/
  valued : String := ""
  /-- Long names for letters. -/
  long : List (String × Char) := []
  /-- The first operand ends the options. -/
  stopsEarly : Bool := false

/-- What was found among the arguments. -/
structure Options where
  given : List (Char × Text) := []
  operands : List Text := []

namespace Options

def has (o : Options) (letter : Char) : Bool := o.given.any (·.1 = letter)

/-- The value of an option; the last one counts. -/
def value? (o : Options) (letter : Char) : Option Text := o.given.reverse.lookup letter

def values (o : Options) (letter : Char) : List Text :=
  (o.given.filter (·.1 = letter)).map (·.2)

/-- The option of some that was given last. -/
def last? (o : Options) (letters : List Char) : Option Char :=
  (o.given.reverse.find? fun g => letters.contains g.1).map (·.1)

def add (letter : Char) (value : Text) (o : Options) : Options :=
  { o with given := (letter, value) :: o.given }

end Options

namespace OptionTable

/-- The letters of one argument, the value of the last one if it is there, or the letter whose value
is the next argument. -/
def letters (t : OptionTable) : Text → Except Text (List (Char × Text) × Option Char)
  | [] => .ok ([], none)
  | .char c :: rest =>
    if t.plain.contains c then do
      let (more, pending) ← letters t rest
      return ((c, []) :: more, pending)
    else if t.valued.contains c then
      if rest.isEmpty then .ok ([], some c) else .ok ([(c, rest)], none)
    else .error ("invalid option -- '" ++ [Glyph.char c] ++ "'")
  | g :: _ => .error ("invalid option -- '" ++ [g] ++ "'")

/-- The letter for a long name, which may be cut short. -/
def longLetter? (t : OptionTable) (name : Text) : Option Char :=
  match t.long.find? fun l => Text.ofString l.1 = name with
  | some l => some l.2
  | none =>
    match t.long.filter fun l => Text.startsWith (Text.ofString l.1) name with
    | [l] => some l.2
    | _ => none

/-- An argument that starts with two dashes: its letter, and its value if that is there. -/
def longOption (t : OptionTable) (body : Text) : Except Text (Char × Option Text) :=
  let (name, value) : Text × Option Text := match Text.cut? body '=' with
    | some (name, value) => (name, some value)
    | none => (body, none)
  match t.longLetter? name with
  | none => .error ("unrecognized option '--" ++ body ++ "'")
  | some c =>
    if t.valued.contains c then .ok (c, value)
    else match value with
      | none => .ok (c, some [])
      | some _ => .error ("option '--" ++ name ++ "' doesn't allow an argument")

/-- Tells options from operands. `pending` is the letter of an option whose value comes next. -/
def readFrom (t : OptionTable) : (pending : Option (Char × Text)) → List Text → Except Text Options
  | none, [] => .ok {}
  | some (_, shown), [] => .error ("option " ++ shown)
  | some (c, _), a :: rest => return (← readFrom t none rest).add c a
  | none, a :: rest =>
    match a with
    | [.char '-', .char '-'] => .ok { operands := rest }
    | .char '-' :: .char '-' :: body => do
      match ← t.longOption body with
      | (c, some value) => return (← readFrom t none rest).add c value
      | (c, none) => readFrom t (some (c, "'--" ++ body ++ "' requires an argument")) rest
    | .char '-' :: body@(_ :: _) => do
      let (found, pending) ← t.letters body
      let waiting := pending.map fun c =>
        (c, ("requires an argument -- '" ++ [Glyph.char c] ++ "'" : Text))
      let more ← readFrom t waiting rest
      return { more with given := found ++ more.given }
    | a =>
      if t.stopsEarly then .ok { operands := a :: rest }
      else do
        let more ← readFrom t none rest
        return { more with operands := a :: more.operands }

def read (t : OptionTable) (args : List Text) : Except Text Options := t.readFrom none args

end OptionTable

/-- Runs a utility on its options, or says what is wrong with them. -/
def withOptions (name : Text) (t : OptionTable) (c : Call) (f : Options → Option Effect) :
    Option Effect :=
  match t.read c.args with
  | .ok o => f o
  | .error e => misuseOf name e

/-! ### Sources -/

/-- The sources that operands name, the input if they name none, with messages about those that
cannot be opened. -/
def sources (c : Call) (paths : List Text) (message : Text → Text → Text) :
    List (Text × Source) × Text :=
  if paths.isEmpty then ([([], c.input)], [])
  else paths.foldl (fun (found, err) (path : Text) =>
    if path = "-" then (found ++ [(path, c.input)], err)
    else match openSource c.files c.input path with
      | .ok s => (found ++ [(path, s)], err)
      | .error e => (found, err ++ message path (systemText e) ++ "\n")) ([], ([] : Text))

/-- The same with the usual message. -/
def sourcesFor (name : Text) (c : Call) (paths : List Text) : List (Text × Source) × Text :=
  sources c paths fun path reason => name ++ ": " ++ path ++ ": " ++ reason

def failing (err : Text) : Nat := if err.isEmpty then 0 else 1

/-- A text brought to a width by blanks in front of it. -/
def padLeft (width : Nat) (t : Text) : Text :=
  List.replicate (width - t.length) (Glyph.char ' ') ++ t

/-- The last `n` of a list. -/
def lastOf {α : Type} (n : Nat) (l : List α) : List α := l.drop (l.length - n)

end Utility

end Posix

end CallerTree
