import CallerTree.Posix.Utility.Lines

/-!
# Searching lines

`grep` prints the lines in which an expression matches, or says which and how many they are.

## Contract

The status is 0 if a line was selected, 1 if none was, and 2 if something went wrong.
-/

namespace CallerTree

namespace Posix

namespace Utility

namespace Grep

def table : OptionTable where
  plain := "acEFGhHilLnoqrRsvwxy"
  valued := "em"
  long := [("extended-regexp", 'E'), ("fixed-strings", 'F'), ("basic-regexp", 'G'), ("regexp", 'e'),
    ("ignore-case", 'i'), ("word-regexp", 'w'), ("line-regexp", 'x'), ("no-messages", 's'),
    ("invert-match", 'v'), ("max-count", 'm'), ("line-number", 'n'), ("with-filename", 'H'),
    ("no-filename", 'h'), ("only-matching", 'o'), ("quiet", 'q'), ("silent", 'q'), ("text", 'a'),
    ("recursive", 'r'), ("dereference-recursive", 'R'), ("files-without-match", 'L'),
    ("files-with-matches", 'l'), ("count", 'c')]

/-- What is searched for. -/
structure Search where
  regex : Regex
  foldsCase : Bool
  /-- A match has to be a whole word, or a whole line. -/
  isWord : Bool
  isLine : Bool
  isInverted : Bool

namespace Search

/-- Whether a match may end where it does. -/
def accepts (g : Search) (s : Regex.Subject) (start stop : Nat) : Bool :=
  (!g.isLine || (start = 0 && stop = s.chars.size)) &&
    (!g.isWord || (!(0 < start && s.isWordAt (start - 1)) && !s.isWordAt stop))

def found (g : Search) (line : List Char) : List Regex.Match :=
  let s := Regex.Subject.ofChars g.foldsCase line
  Regex.allFrom (g.regex.searchWhere s (g.accepts s)) (line.length + 2) 0 none

/-- Whether a line is selected. -/
def selects (g : Search) (line : List Char) : Bool :=
  let s := Regex.Subject.ofChars g.foldsCase line
  (g.regex.searchWhere s (g.accepts s) 0).isSome != g.isInverted

end Search

/-- The expression for several patterns, each on a line of its own. -/
def regexOf (o : Options) (patterns : List Text) : Except RegexError Regex := do
  let lines := patterns.flatMap fun p => pieces (· = '\n') (octets p)
  let rs ← lines.mapM fun cs =>
    if o.has 'F' then .ok (Regex.literal cs)
    else Regex.read { isExtended := o.has 'E' } cs
  match rs with
  | [] => return .empty
  | r :: rs => return rs.foldl .either r

/-! ### Files -/

/-- A file that is searched. -/
structure Target where
  name : Text
  data : Bytes

/-- The files below a folder. -/
def filesBelow : (fuel : Nat) → (path : Text) → List (Text × Entry) → List Target
  | 0, _, _ => []
  | fuel + 1, path, entries =>
    (entries.mergeSort fun a b => Text.byteLE a.1 b.1).flatMap fun (name, e) =>
      let below := if path.isEmpty then name else path ++ "/" ++ name
      match e with
      | .folder entries => filesBelow fuel below entries
      | .file _ data => [⟨below, data⟩]
      | .link _ => []

/-- What is searched, in order, or a message. -/
def targets (c : Call) (o : Options) : List (Except Text Target) :=
  let recurses := o.has 'r' || o.has 'R'
  let below := fun (path shown : Text) => match c.files.entry true path with
    | .ok (.folder entries) => (filesBelow 200 shown entries).map Except.ok
    | _ => []
  if o.operands.isEmpty then
    if recurses then below "." [] else
      match c.input.all? with
      | some data => [.ok ⟨"(standard input)", data⟩]
      | none => []
  else o.operands.flatMap fun (path : Text) =>
    if path = "-" then [.ok ⟨"(standard input)", c.input.data⟩]
    else match openSource c.files c.input path with
      | .ok s => [.ok ⟨path, s.data⟩]
      | .error .isFolder =>
        if recurses then below path (Text.dropEndWhile (· = .char '/') path)
        else [.error ("grep: " ++ path ++ ": Is a directory\n")]
      | .error e => [.error ("grep: " ++ path ++ ": " ++ systemText e ++ "\n")]

/-! ### Printing -/

/-- How lines are shown. -/
structure Format where
  named : Bool
  numbered : Bool
  onlyMatches : Bool

def lead (f : Format) (name : Text) (number : Nat) : Text :=
  (if f.named then name ++ ":" else []) ++ if f.numbered then Text.ofNat number ++ ":" else []

/-- What is printed about the selected lines of a file. -/
def report (f : Format) (g : Search) (t : Target) (lines : Array (List Char))
    (selected : List Nat) : Bytes :=
  let shownLead := fun (i : Nat) => (lead f t.name (i + 1)).utf8
  if f.onlyMatches then
    if g.isInverted then []
    else selected.flatMap fun i =>
      let line := lines.getD i []
      ((g.found line).filter fun m => m.start < m.stop).flatMap fun m =>
        shownLead i ++ bytesOf ((line.drop m.start).take (m.stop - m.start)) ++ [10]
  else selected.flatMap fun i => shownLead i ++ bytesOf (lines.getD i []) ++ [10]

/-- The numbers of the selected lines, counted from zero. -/
def selectedLines (g : Search) (most : Option Nat) (lines : Array (List Char)) : List Nat :=
  let found := (List.range lines.size).filter fun i => g.selects (lines.getD i [])
  match most with
  | some n => found.take n
  | none => found

/-- What is printed about one file, and whether a line was selected. -/
def searchFile (o : Options) (f : Format) (g : Search) (t : Target) : Bytes × Bool :=
  let lines := ((linesOf t.data).map octetsOfBytes).toArray
  let selected := selectedLines g ((o.value? 'm').bind Text.readNat?) lines
  let isFound := !selected.isEmpty
  let name : Text := t.name ++ "\n"
  let out :=
    if o.has 'q' then []
    else if o.has 'l' then if isFound then name.utf8 else []
    else if o.has 'L' then if isFound then [] else name.utf8
    else if o.has 'c' then
      ((if f.named then t.name ++ ":" else []) ++ Text.ofNat selected.length ++ "\n" : Text).utf8
    else if t.data.contains 0 && isFound && !o.has 'a' then
      ("grep: " ++ t.name ++ ": binary file matches\n" : Text).utf8
    else report f g t lines selected
  (out, isFound)

def usage : Text :=
  "Usage: grep [OPTION]... PATTERNS [FILE]...\nTry 'grep --help' for more information."

/-- Searches all files. -/
def run (c : Call) (o : Options) (g : Search) : Effect :=
  let all := targets c o
  let f : Format := {
    named := match o.last? ['h', 'H'] with
      | some l => l = 'H'
      | none =>
        ((o.has 'r' || o.has 'R') && o.operands ≠ [Text.ofString "-"]) || 1 < o.operands.length
    numbered := o.has 'n'
    onlyMatches := o.has 'o' }
  let results := all.map fun t => t.map (searchFile o f g)
  let outs := results.filterMap fun r => match r with
    | .ok (out, _) => if out.isEmpty then none else some out
    | .error _ => none
  let err : Text := if o.has 's' then [] else results.flatMap fun r => match r with
    | .ok _ => ([] : Text)
    | .error e => e
  let isFound := results.any fun r => match r with
    | .ok (_, isFound) => isFound
    | .error _ => false
  let isBroken := results.any fun r => !r.isOk
  { out := .ofBytes outs.flatten, err
    status := if isFound && (o.has 'q' || !isBroken) then 0 else if isBroken then 2 else 1 }

end Grep

/-- Prints the lines in which an expression matches. `variant` is an option that is given from the
start. -/
def grep (variant : List Text) : Utility := fun (c : Call) =>
  let args := (variant ++ c.args).filter fun a =>
    !(Text.startsWith a "--color" || Text.startsWith a "--colour")
  match Grep.table.read args with
  | .error e => misuse ("grep: " ++ e ++ "\n" ++ Grep.usage) 2
  | .ok o =>
    let (patterns, o) := if o.has 'e' then (o.values 'e', o)
      else (o.operands.take 1, { o with operands := o.operands.drop 1 })
    if (o.value? 'm').any fun v => (Text.readNat? v).isNone then
      misuse "grep: invalid max count" 2
    else if patterns.isEmpty then misuse Grep.usage 2
    else if 1 < (['E', 'F', 'G'].filter o.has).length then
      misuse "grep: conflicting matchers specified" 2
    else match Grep.regexOf o patterns with
      | .error e => misuse ("grep: " ++ e.text) 2
      | .ok regex =>
        let g : Grep.Search := {
          regex, foldsCase := o.has 'i' || o.has 'y', isWord := o.has 'w', isLine := o.has 'x'
          isInverted := o.has 'v' }
        if o.operands.isEmpty && !(o.has 'r' || o.has 'R') && c.input.all?.isNone then
          -- An input without end is searched only as far as it is needed.
          let e := Grep.run { c with input := .ofBytes (c.input.unrolled 3000).data } o g
          if o.has 'q' || (o.value? 'm').isSome || o.has 'l' then some e
          else some { e with out := { e.out with remainder := .unknown } }
        else some (Grep.run c o g)

end Utility

end Posix

end CallerTree
