import CallerTree.CommandLine.Commands

/-!
# Help

The help of a command is its description, the usage lines, the commands below it and its flags.
-/

namespace CallerTree

namespace CommandLine

def nameLE (s t : Text) : Bool := Text.byteLE s t

def padded (width : Nat) (t : Text) : Text := t ++ List.replicate (width - t.length) (.char ' ')

/-! ### Flags -/

def FlagType.placeholder : FlagType → Text
  | text => " string"
  | int => " int"
  | switch => []

/-- A flag as listed, without its description. -/
def Flag.head (f : Flag) : Text :=
  (match f.letter with
  | some c => "  -" ++ [Glyph.char c] ++ ", --" ++ f.name
  | none => "      --" ++ f.name) ++ f.type.placeholder

def Flag.description (f : Flag) : Text :=
  f.usage ++ if f.default.isEmpty then ([] : Text) else " (default " ++ f.default.quoted ++ ")"

/-- Flags by name, their descriptions aligned. -/
def flagLines (flags : List Flag) : Text :=
  let sorted := flags.mergeSort fun f g => nameLE f.name g.name
  let width := (sorted.map fun f => f.head.utf8.length).foldl max 0
  Text.join "\n" (sorted.map fun f => padded (width + 3) f.head ++ f.description)

/-! ### Commands -/

/-- The commands below a command by name, their descriptions aligned. -/
def commandLines (below : List Spec) : Text :=
  (below.mergeSort fun s t => nameLE s.name t.name).flatMap fun s =>
    ("\n  " ++ padded 11 s.name ++ " " ++ s.short : Text)

/-- The line that shows how a command is used. -/
def Spec.usageLine (s : Spec) : Text :=
  s.title ++ (if s.operands.isEmpty then ([] : Text) else " " ++ s.operands) ++
    if s.mentionsFlags then (" [flags]" : Text) else []

/-- The usage of a command; the flag for help is listed if it is known. -/
def usage (all : List Spec) (s : Spec) (withHelp : Bool) : Text :=
  let below := children all s.path
  let own := (if s.isRoot then globalFlags else s.flags) ++
    if withHelp then [Flag.help s.name] else []
  let parts : List Text := [
    "Usage:",
    if s.runs then "\n  " ++ s.usageLine else [],
    if below.isEmpty then [] else "\n  " ++ s.title ++ " [command]",
    if below.isEmpty then [] else "\n\nAvailable Commands:" ++ commandLines below,
    if own.isEmpty then [] else "\n\nFlags:\n" ++ flagLines own,
    if s.isRoot then [] else "\n\nGlobal Flags:\n" ++ flagLines globalFlags,
    if below.isEmpty then [] else
      "\n\nUse \"" ++ s.title ++ " [command] --help\" for more information about a command.",
    "\n"]
  parts.flatten

/-- The help of a command. -/
def helpText (all : List Spec) (s : Spec) : Text :=
  (if s.long.isEmpty then s.short else s.long) ++ "\n\n" ++ usage all s true

/-- A word between backquotes, or between double quotes if it cannot stand between those. -/
def backquoted (t : Text) : Text :=
  let fits := t.all fun
    | .char c => c ≠ '\x60' && c ≠ '\ufeff' && c.toNat ≠ 127 && (32 ≤ c.toNat || c = '\t')
    | .stray _ => false
  if fits then "\x60" ++ t ++ "\x60" else t.quoted

/-- The answer to a question about an unknown command. -/
def unknownTopic (all : List Spec) (words : List Text) : Text :=
  "Unknown help topic [" ++ Text.join " " (words.map backquoted) ++ "]\n" ++ usage all root false

end CommandLine

end CallerTree
