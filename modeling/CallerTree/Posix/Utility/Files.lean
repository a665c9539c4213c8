import CallerTree.Posix.Utility.Basic

/-!
# Utilities on files

Programs that list, make and remove files. Waiting is here too.
-/

namespace CallerTree

namespace Posix

namespace Utility

/-! ### Time -/

/-- A time such as `0.5` or `2m` in nanoseconds. -/
def delay? (t : Text) : Option Nat := do
  let (number, unit) := match t.getLast? with
    | some (.char 's') => (t.dropLast, 1)
    | some (.char 'm') => (t.dropLast, 60)
    | some (.char 'h') => (t.dropLast, 3600)
    | some (.char 'd') => (t.dropLast, 86400)
    | _ => (t, 1)
  let (whole, fraction) := (Text.cut? number '.').getD (number, [])
  let digits := (fraction ++ List.replicate 9 (Glyph.char '0')).take 9
  let n ← if whole.isEmpty then (if fraction.isEmpty then none else some 0) else Text.readNat? whole
  let f ← Text.readNat? digits
  return (n * 1000000000 + f) * unit

def sleep : Utility := fun c =>
  if c.args.isEmpty then misuseOf "sleep" "missing operand"
  else if c.args.any (· = "infinity") then none
  else match c.args.find? fun a => (delay? a).isNone with
    | some a => misuseOf "sleep" ("invalid time interval '" ++ a ++ "'")
    | none => some { delay := (c.args.filterMap delay?).foldl (· + ·) 0 }

def workingDirectory (files : FileSystem) : Text := Path.ofComponents true files.workingDirectory

/-! ### Listing -/

/-- The names in a folder that are shown, in order. -/
def shownNames (o : Options) (entries : List (Text × Entry)) : List Text :=
  let names := (entries.map (·.1)).filter fun n =>
    o.has 'a' || o.has 'A' || n.head? ≠ some (.char '.')
  let names : List Text := if o.has 'a' then "." :: ".." :: names else names
  let sorted := names.mergeSort Text.byteLE
  if o.has 'r' then sorted.reverse else sorted

/-- Lists folders, one name a line; hidden ones are left out. -/
def ls : Utility := fun c =>
  let table : OptionTable := {
    plain := "1aAdr", long := [("all", 'a'), ("almost-all", 'A'), ("directory", 'd'),
      ("reverse", 'r')] }
  match table.read c.args with
  | .error e => misuse ("ls: " ++ e ++ "\n" ++ seeHelp "ls") 2
  | .ok o =>
    let paths : List Text := if o.operands.isEmpty then ["."] else o.operands.mergeSort Text.byteLE
    let found := paths.map fun path => (path, c.files.entry true path)
    let err := found.flatMap fun (path, r) => match r with
      | .ok _ => ([] : Text)
      | .error e => "ls: cannot access '" ++ path ++ "': " ++ systemText e ++ "\n"
    let plain := found.flatMap fun (path, r) => match r with
      | .ok (.folder _) => if o.has 'd' then (path ++ "\n" : Text) else []
      | .ok _ => path ++ "\n"
      | .error _ => []
    let folders := if o.has 'd' then [] else found.filterMap fun (path, r) => match r with
      | .ok (.folder entries) => some (path, entries)
      | _ => none
    let listed := Text.join "\n" (folders.map fun (path, entries) =>
      let title : Text := if 1 < paths.length then path ++ ":\n" else []
      title ++ (shownNames o entries).flatMap fun n => (n ++ "\n" : Text))
    let gap : Text := if plain.isEmpty || folders.isEmpty then [] else "\n"
    some { out := .ofText (plain ++ gap ++ listed), err, status := if err.isEmpty then 0 else 2 }

/-! ### Changing -/

/-- Carries out a change for each path and collects what goes wrong. -/
def changing (c : Call) (paths : List Text) (f : FileSystem → Text → Except Text FileSystem) :
    Option Effect :=
  let (files, err) := paths.foldl (fun (files, err) path =>
    match f files path with
    | .ok files => (files, err)
    | .error e => (files, err ++ e ++ "\n")) (c.files, ([] : Text))
  some { files := some files, err, status := failing err }

def touch : Utility := fun c =>
  withOptions "touch" { plain := "acm", valued := "drt" } c fun o =>
    if o.operands.isEmpty then misuseOf "touch" "missing file operand"
    else changing c o.operands fun files path =>
      match files.locate true path with
      | .error e => .error ("touch: cannot touch '" ++ path ++ "': " ++ systemText e)
      | .ok place =>
        .ok (if place.entry.isSome || o.has 'c' then files
          else files.setAt place.components (some (.file 0o644 [])))

def mkdir : Utility := fun c =>
  withOptions "mkdir" { plain := "pv", valued := "m", long := [("parents", 'p')] } c fun o =>
    if o.operands.isEmpty then misuseOf "mkdir" "missing operand"
    else changing c o.operands fun files path =>
      let refuse := fun (reason : Text) =>
        Except.error ("mkdir: cannot create directory '" ++ path ++ "': " ++ reason)
      match files.locate true path with
      | .error e =>
        if o.has 'p' then
          .ok (files.setAt (Path.components (if Path.isAbsolute path then path
            else Path.join (workingDirectory files) path)) (some (.folder [])))
        else refuse (systemText e)
      | .ok place =>
        if place.entry.isNone then .ok (files.setAt place.components (some (.folder [])))
        else if o.has 'p' && place.entry.any Entry.isFolder then .ok files
        else refuse "File exists"

def rm : Utility := fun c =>
  let table : OptionTable := {
    plain := "dfiIrRv", long := [("recursive", 'r'), ("force", 'f')] }
  withOptions "rm" table c fun o =>
    if o.operands.isEmpty && !o.has 'f' then misuseOf "rm" "missing operand"
    else changing c o.operands fun files path =>
      let refuse := fun (reason : Text) =>
        Except.error ("rm: cannot remove '" ++ path ++ "': " ++ reason)
      match files.entry false path with
      | .error e => if o.has 'f' then .ok files else refuse (systemText e)
      | .ok (.folder entries) =>
        if o.has 'r' || o.has 'R' || (o.has 'd' && entries.isEmpty) then .ok (files.remove path)
        else refuse "Is a directory"
      | .ok _ => .ok (files.remove path)

end Utility

end Posix

end CallerTree
